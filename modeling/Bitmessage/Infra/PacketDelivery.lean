import Bitmessage.Infra.Framing

/-! Packets that arrive over a connection and then its end. All that is available is read
before anything is parsed, the buffer may not grow beyond a limit, and the end of the
stream is answered before the parse loop: so it matters how much arrives at once and whether
the end arrives with data. -/

namespace Bitmessage

open Lexing

/-! ### The size of the buffer -/

/-- The largest power of two that the buffer may have as its size. -/
def recvBufferCap : ℕ := 2 ^ 23

/-- The size is the initial one doubled a few times, and the data fits. -/
structure RecvConn.Sized (conn : RecvConn) : Prop where
  size : ∃ a, 17 ≤ a ∧ a ≤ 23 ∧ conn.size = 2 ^ a
  length_le : conn.recvBuffer.length ≤ conn.size

theorem sized_new : RecvConn.new.Sized := ⟨⟨17, le_rfl, by norm_num, rfl⟩, Nat.zero_le _⟩

/-- Doubling stops at the first power of two that is large enough. -/
theorem grow_spec (fuel need a : ℕ) (hfuel : need ≤ 2 ^ (a + fuel)) :
    ∃ b, grow fuel need (2 ^ a) = 2 ^ b ∧ a ≤ b ∧ need ≤ 2 ^ b ∧ (b = a ∨ 2 ^ (b - 1) < need) := by
  induction fuel generalizing a with
  | zero => exact ⟨a, rfl, le_rfl, hfuel, .inl rfl⟩
  | succ fuel ih =>
    rw [grow]
    by_cases hlt : 2 ^ a < need
    · rw [if_pos hlt, ← Nat.pow_succ]
      obtain ⟨b, hb, hab, hneed, hfirst⟩ := ih (a + 1) (by rwa [Nat.add_right_comm, Nat.add_assoc])
      refine ⟨b, hb, by omega, hneed, .inr ?_⟩
      rcases hfirst with rfl | hfirst
      · simpa using hlt
      · exact hfirst
    · rw [if_neg hlt]
      exact ⟨a, rfl, le_rfl, Nat.le_of_not_lt hlt, .inl rfl⟩

theorem maxRecvBufferSize_eq : maxRecvBufferSize = 8388656 := rfl

/-- A chunk is taken exactly when the data still fits in the largest buffer. -/
theorem appendChunk_eq {conn : RecvConn} (hs : conn.Sized) (chunk : Chunk) :
    (conn.recvBuffer.length + chunk.bytes.length ≤ recvBufferCap →
      ∃ c, appendChunk conn chunk = some c ∧ c.Sized) ∧
    (recvBufferCap < conn.recvBuffer.length + chunk.bytes.length → appendChunk conn chunk = none) := by
  obtain ⟨⟨a, hlo, ha, hsize⟩, -⟩ := hs
  generalize hneed : conn.recvBuffer.length + chunk.bytes.length = need
  have hcap : (2 : ℕ) ^ a ≤ recvBufferCap := Nat.pow_le_pow_right (by norm_num) ha
  obtain ⟨b, hb, hab, hbneed, hfirst⟩ :=
    grow_spec need need a (Nat.lt_two_pow_self.le.trans (Nat.pow_le_pow_right (by norm_num) (by omega)))
  have hbuf : (conn.recvBuffer ++ chunk.bytes).length = need := by rw [List.length_append, hneed]
  unfold appendChunk
  simp only [hneed, hsize, hb]
  constructor
  · intro hle
    have hb23 : b ≤ 23 := by
      rcases hfirst with rfl | hfirst
      · exact ha
      · have := (Nat.pow_lt_pow_iff_right (a := 2) (by norm_num)).mp (hfirst.trans_le hle)
        omega
    have hbcap : (2 : ℕ) ^ b ≤ 2 ^ 23 := Nat.pow_le_pow_right (by norm_num) hb23
    by_cases hlt : 2 ^ a < need
    · rw [if_pos hlt, if_neg (by rw [maxRecvBufferSize_eq]; omega)]
      exact ⟨_, rfl, ⟨b, hlo.trans hab, hb23, rfl⟩, hbuf.trans_le hbneed⟩
    · rw [if_neg hlt]
      exact ⟨_, rfl, ⟨a, hlo, ha, rfl⟩, hbuf.trans_le (Nat.le_of_not_lt hlt)⟩
  · intro hlt
    have hb24 : 24 ≤ b := (Nat.pow_lt_pow_iff_right (a := 2) (by norm_num)).mp (hlt.trans_le hbneed)
    have hbig : (2 : ℕ) ^ 24 ≤ 2 ^ b := Nat.pow_le_pow_right (by norm_num) hb24
    rw [if_pos (hcap.trans_lt hlt), if_pos (by rw [maxRecvBufferSize_eq]; omega)]

@[simp] theorem length_bytesOf_cons (chunk : Chunk) (chunks : List Chunk) :
    (bytesOf (chunk :: chunks)).length = chunk.bytes.length + (bytesOf chunks).length := by
  rw [bytesOf, List.flatMap_cons, List.length_append]
  rfl

/-- An event that fits is read to its end. -/
theorem readLoop_again {conn : RecvConn} (hs : conn.Sized) {chunks : List Chunk}
    (hfit : conn.recvBuffer.length + (bytesOf chunks).length ≤ recvBufferCap) :
    ∃ c, readLoop .again conn chunks = (c, .alive) ∧ c.Sized := by
  induction chunks generalizing conn with
  | nil => exact ⟨conn, rfl, hs⟩
  | cons chunk chunks ih =>
    rw [length_bytesOf_cons] at hfit
    obtain ⟨c, hc, hcs⟩ := (appendChunk_eq hs chunk).1 (by omega)
    rw [readLoop, hc]
    apply ih hcs
    rw [(appendChunk_eq_some hc).1, List.length_append]
    omega

/-- An event that does not fit costs the connection. -/
theorem readLoop_overflow {conn : RecvConn} (hs : conn.Sized) (ending : ReadEnd) {chunks : List Chunk}
    (hlen : conn.recvBuffer.length ≤ recvBufferCap)
    (hover : recvBufferCap < conn.recvBuffer.length + (bytesOf chunks).length) :
    (readLoop ending conn chunks).2 = .dropped := by
  induction chunks generalizing conn with
  | nil => exact absurd hover (Nat.not_lt.mpr hlen)
  | cons chunk chunks ih =>
    rw [length_bytesOf_cons] at hover
    rw [readLoop]
    by_cases hle : conn.recvBuffer.length + chunk.bytes.length ≤ recvBufferCap
    · obtain ⟨c, hc, hcs⟩ := (appendChunk_eq hs chunk).1 hle
      rw [hc]
      have hlength : c.recvBuffer.length = conn.recvBuffer.length + chunk.bytes.length := by
        rw [(appendChunk_eq_some hc).1, List.length_append]
      exact ih hcs (by omega) (by omega)
    · rw [(appendChunk_eq hs chunk).2 (Nat.lt_of_not_le hle)]

theorem frames_readLoop (ending : ReadEnd) (conn : RecvConn) (chunks : List Chunk) :
    (readLoop ending conn chunks).1.frames = conn.frames := by
  induction chunks generalizing conn with
  | nil => cases ending <;> rfl
  | cons chunk chunks ih =>
    rw [readLoop]
    cases hc : appendChunk conn chunk with
    | none => rfl
    | some c => exact (ih c).trans (appendChunk_eq_some hc).2

/-! ### What a delivery leaves in the buffer -/

/-- The bytes of an unfinished packet, of packets of the lengths `lens`, once `d` bytes are there. -/
def pending : List ℕ → ℕ → ℕ
  | [], d => d
  | len :: lens, d => if len ≤ d then pending lens (d - len) else d

/-- Each event fits in the buffer together with the unfinished packet before it, for events of the
sizes `sizes` after `d` bytes. -/
def FitsBuffer (lens : List ℕ) : ℕ → List ℕ → Prop
  | _, [] => True
  | d, size :: sizes => pending lens d + size ≤ recvBufferCap ∧ FitsBuffer lens (d + size) sizes

theorem pending_shift (as bs : List ℕ) (d : ℕ) : pending (as ++ bs) (as.sum + d) = pending bs d := by
  induction as with
  | nil => rw [List.nil_append, List.sum_nil, Nat.zero_add]
  | cons a as ih =>
    rw [List.cons_append, List.sum_cons, pending, if_pos (by omega), Nat.add_assoc, Nat.add_sub_cancel_left, ih]

theorem fitsBuffer_shift (as bs : List ℕ) (d : ℕ) (sizes : List ℕ) :
    FitsBuffer (as ++ bs) (as.sum + d) sizes ↔ FitsBuffer bs d sizes := by
  induction sizes generalizing d with
  | nil => exact Iff.rfl
  | cons size sizes ih => rw [FitsBuffer, FitsBuffer, pending_shift, Nat.add_assoc, ih]

/-- Nothing more to come fits. -/
theorem fitsBuffer_zeros {sizes : List ℕ} (h : ∀ size ∈ sizes, size = 0) : FitsBuffer [] 0 sizes := by
  induction sizes with
  | nil => trivial
  | cons size sizes ih =>
    obtain rfl := h size List.mem_cons_self
    exact ⟨Nat.zero_le _, ih fun x hx => h x (List.mem_cons_of_mem _ hx)⟩

instance decidableFitsBuffer (lens : List ℕ) : ∀ d sizes, Decidable (FitsBuffer lens d sizes)
  | _, [] => isTrue trivial
  | d, size :: sizes =>
    haveI := decidableFitsBuffer lens (d + size) sizes
    inferInstanceAs (Decidable (_ ∧ _))

/-! ### Packets on the wire -/

/-- The frame of a packet that arrived. -/
def Packet.frame (H : Hashes) (testnet : Bool) (p : Packet) : Frame × Bytes :=
  (.message (p.message H), p.bytes H testnet)

section Delivery
variable {H : Hashes} {testnet : Bool}

theorem length_bytes_pos (p : Packet) : 0 < (p.bytes H testnet).length := by
  rw [Packet.bytes, length_createPacket, messageHeaderSize]
  omega

theorem messagesOf_frames (ps : List Packet) :
    messagesOf (ps.map (Packet.frame H testnet)) = ps.map (Packet.message H) := by
  induction ps with
  | nil => rfl
  | cons p ps ih =>
    rw [List.map_cons, List.map_cons, ← ih]
    rfl

theorem parseMessage_packet (hempty : EmptyChecksum H) (p : Packet) (more : Bytes) :
    parseMessage H (magicBytes testnet) (p.bytes H testnet ++ more) =
      .ok (p.message H) (p.bytes H testnet).length := by
  rw [Packet.bytes, parseMessage_createPacket hempty, length_createPacket]

/-- A stream of packets is cut into the packets. -/
theorem lexes_packets (hempty : EmptyChecksum H) (ps : List Packet) :
    Lexes (nextFrame H (magicBytes testnet)) (ps.flatMap (Packet.bytes H testnet))
      (ps.map (Packet.frame H testnet)) [] := by
  induction ps with
  | nil => exact .nil _
  | cons p ps ih =>
    have hn : nextFrame H (magicBytes testnet) (p.bytes H testnet ++ ps.flatMap (Packet.bytes H testnet)) =
        some (.message (p.message H), (p.bytes H testnet).length) := by
      rw [nextFrame, parseMessage_packet hempty]
    have hcons := Lexes.cons hn (by rw [List.drop_left]; exact ih)
    rwa [List.take_left] at hcons

/-- The frames cut off the beginning of a stream of packets are packets. -/
theorem packets_of_lexes (hempty : EmptyChecksum H) {buf more rest : Bytes} {fs : List (Frame × Bytes)}
    {todo : List Packet} (hlexes : Lexes (nextFrame H (magicBytes testnet)) buf fs rest)
    (hstream : buf ++ more = todo.flatMap (Packet.bytes H testnet)) :
    ∃ got left, todo = got ++ left ∧ fs = got.map (Packet.frame H testnet) ∧
      rest ++ more = left.flatMap (Packet.bytes H testnet) := by
  have hall := hlexes.append (incremental_nextFrame H _) more
  rw [hstream] at hall
  obtain ⟨gs, hgs⟩ := hall.isPrefix (lexes_packets hempty todo) (nextFrame_of_incomplete _ _ rfl)
  obtain ⟨got, left, rfl, hgot, -⟩ := List.map_eq_append_iff.mp hgs.symm
  refine ⟨got, left, rfl, hgot.symm, ?_⟩
  have hbytes := hall.flatMap_append
  rw [← hgot, List.flatMap_append] at hbytes
  have hmap : (got.map (Packet.frame H testnet)).flatMap Prod.snd = got.flatMap (Packet.bytes H testnet) := by
    rw [List.flatMap_map]
    rfl
  rw [hmap] at hbytes
  exact List.append_cancel_left hbytes

/-- No prefix of a stream of packets announces too large a message. -/
theorem not_tooLarge (hempty : EmptyChecksum H) {buf more : Bytes} {todo : List Packet}
    (hstream : buf ++ more = todo.flatMap (Packet.bytes H testnet)) :
    parseMessage H (magicBytes testnet) buf ≠ .messageTooLarge := by
  intro hp
  have happ := parseMessage_append H (magicBytes testnet) (by rw [hp]; nofun) more
  rw [hstream, hp] at happ
  cases todo with
  | nil => exact absurd happ (by rw [List.flatMap_nil]; nofun)
  | cons p todo => rw [List.flatMap_cons, parseMessage_packet hempty] at happ; contradiction

/-- What is left in the buffer is less than the next packet. -/
theorem short_of_incomplete (hempty : EmptyChecksum H) {buf more : Bytes} {todo : List Packet}
    (hstream : buf ++ more = todo.flatMap (Packet.bytes H testnet))
    (hp : parseMessage H (magicBytes testnet) buf = .incomplete) (p : Packet) (hhead : todo.head? = some p) :
    buf.length < (p.bytes H testnet).length := by
  obtain ⟨left, rfl⟩ := List.head?_eq_some_iff.mp hhead
  rw [List.flatMap_cons] at hstream
  by_contra hge
  obtain ⟨extra, rfl⟩ : p.bytes H testnet <+: buf :=
    List.prefix_of_prefix_length_le ⟨_, hstream.symm⟩ (List.prefix_append buf more) (Nat.le_of_not_lt hge)
  rw [parseMessage_packet hempty] at hp
  contradiction

theorem pending_of_short {buf : Bytes} {todo : List Packet}
    (hshort : ∀ p, todo.head? = some p → buf.length < (p.bytes H testnet).length) :
    pending (todo.map fun p => (p.bytes H testnet).length) buf.length = buf.length := by
  cases todo with
  | nil => rfl
  | cons p todo => rw [List.map_cons, pending, if_neg (Nat.not_le.mpr (hshort p rfl))]

end Delivery

/-! ### Events -/

section Events
variable (H : Hashes) (magic : Bytes) (disconnects : List Message → Bool)

theorem handleEvents_cons (conn : RecvConn) (e : ReadEvent) (es : List ReadEvent) :
    handleEvents H magic disconnects conn (e :: es) =
      if (handleReadable H magic disconnects conn e).2 = .alive
      then handleEvents H magic disconnects (handleReadable H magic disconnects conn e).1 es
      else handleReadable H magic disconnects conn e := by
  rw [handleEvents]
  rcases handleReadable H magic disconnects conn e with ⟨c, status⟩
  cases status <;> rfl

/-- An event that fits is read and parsed. -/
theorem handleReadable_again {conn : RecvConn} (hs : conn.Sized) {chunks : List Chunk}
    (hfit : conn.recvBuffer.length + (bytesOf chunks).length ≤ recvBufferCap) :
    ∃ c fs, c.recvBuffer = conn.recvBuffer ++ bytesOf chunks ∧ c.frames = conn.frames ∧
      Parsed H magic disconnects c fs (handleReadable H magic disconnects conn ⟨chunks, .again⟩) ∧
      (handleReadable H magic disconnects conn ⟨chunks, .again⟩).1.Sized := by
  obtain ⟨c, hc, hcs⟩ := readLoop_again hs hfit
  obtain ⟨hb, hf⟩ := readLoop_alive hc
  obtain ⟨fs, hfs⟩ : ∃ fs, Parsed H magic disconnects c fs
      (parseLoop H magic disconnects (c.recvBuffer.length + 1) c) :=
    parsed_parseLoop _ c (Nat.lt_succ_self _)
  have heq : handleReadable H magic disconnects conn ⟨chunks, .again⟩ =
      parseLoop H magic disconnects (c.recvBuffer.length + 1) c := by
    unfold handleReadable
    rw [hc]
  rw [heq]
  refine ⟨c, fs, hb, hf, hfs, ⟨hfs.size ▸ hcs.size, ?_⟩⟩
  have hlen := congrArg List.length hfs.lexes.flatMap_append
  have hle := hcs.length_le
  rw [List.length_append] at hlen
  rw [hfs.size]
  omega

/-- When the event does not fit, or ends the stream, nothing is parsed. -/
theorem handleReadable_unparsed {conn : RecvConn} {chunks : List Chunk} {ending : ReadEnd}
    (h : (readLoop ending conn chunks).2 ≠ .alive) :
    (handleReadable H magic disconnects conn ⟨chunks, ending⟩).2 ≠ .alive ∧
      (handleReadable H magic disconnects conn ⟨chunks, ending⟩).1.frames = conn.frames := by
  have hframes := frames_readLoop ending conn chunks
  unfold handleReadable
  rcases hr : readLoop ending conn chunks with ⟨c, status⟩
  rw [hr] at h hframes
  cases status with
  | alive => exact absurd rfl h
  | peerClosed => exact ⟨h, hframes⟩
  | dropped => exact ⟨h, hframes⟩

theorem readLoop_eof (conn : RecvConn) (chunks : List Chunk) : (readLoop .eof conn chunks).2 ≠ .alive := by
  induction chunks generalizing conn with
  | nil =>
    intro h
    cases h
  | cons chunk chunks ih =>
    rw [readLoop]
    cases appendChunk conn chunk with
    | none =>
      intro h
      cases h
    | some c => exact ih c

end Events

/-- Readable events and, at last, one in which the end of the stream is read, behind the data of it. -/
def eventsThenEof (evs : List (List Chunk)) (last : List Chunk) : List ReadEvent :=
  evs.map (fun chunks => ⟨chunks, .again⟩) ++ [⟨last, .eof⟩]

theorem eq_nil_of_bytesOf {chunks : List Chunk} (h : bytesOf chunks = []) : chunks = [] := by
  cases chunks with
  | nil => rfl
  | cons chunk chunks =>
    rw [bytesOf, List.flatMap_cons] at h
    exact absurd (List.append_eq_nil_iff.mp h).1 chunk.nonempty

section Arrival
variable (H : Hashes) (testnet : Bool) (disconnects : List Message → Bool)

/-- The handler keeps the connection until it has had all the packets, from the first `lo` on. -/
def KeepsConnection (lo : ℕ) (ps : List Packet) : Prop :=
  ∀ k, lo < k → k < ps.length → disconnects ((ps.map (Packet.message H)).take k) = false

/-- The packets `got` have arrived, and the buffer holds less than the first of the others. -/
structure Arrived (conn : RecvConn) (got todo : List Packet) : Prop where
  sized : conn.Sized
  frames : conn.frames = got.map (Packet.frame H testnet)
  short : ∀ p, todo.head? = some p → conn.recvBuffer.length < (p.bytes H testnet).length

variable {H testnet disconnects}

theorem Arrived.messages {conn : RecvConn} {got todo : List Packet} (h : Arrived H testnet conn got todo) :
    conn.messages = got.map (Packet.message H) := by
  rw [RecvConn.messages, h.frames, messagesOf_frames]

/-- A connection that is lost has dispatched all packets only if none was missing. -/
theorem map_eq_of_append {got todo : List Packet} :
    got.map (Packet.message H) = (got ++ todo).map (Packet.message H) ↔ todo = [] := by
  rw [List.map_append]
  constructor
  · intro h
    have hlen := congrArg List.length h
    rw [List.length_append, List.length_map, List.length_map] at hlen
    exact List.eq_nil_of_length_eq_zero (by omega)
  · rintro rfl
    exact (List.append_nil _).symm

/-- The stream ends behind `last`: the packets are there if they were before. -/
theorem arrival_eof {conn : RecvConn} {got todo : List Packet} {last : List Chunk}
    (h : Arrived H testnet conn got todo)
    (hstream : conn.recvBuffer ++ bytesOf last = todo.flatMap (Packet.bytes H testnet)) :
    (handleReadable H (magicBytes testnet) disconnects conn ⟨last, .eof⟩).1.messages =
      (got ++ todo).map (Packet.message H) ↔ last = [] ∧ KeepsConnection H disconnects got.length (got ++ todo) := by
  have hframes := (handleReadable_unparsed H (magicBytes testnet) disconnects (readLoop_eof conn last)).2
  rw [RecvConn.messages, hframes, ← RecvConn.messages, h.messages, map_eq_of_append]
  constructor
  · rintro rfl
    refine ⟨eq_nil_of_bytesOf (List.append_eq_nil_iff.mp hstream).2, ?_⟩
    intro k hlo hhi
    rw [List.append_nil] at hhi
    omega
  · rintro ⟨rfl, -⟩
    cases todo with
    | nil => rfl
    | cons p todo =>
      have hshort := h.short p rfl
      have hlen := congrArg List.length hstream
      rw [List.flatMap_cons, List.length_append, List.length_append, bytesOf, List.flatMap_nil, List.length_nil] at hlen
      omega

/-- Once the parse loop is through with the next event, either the connection goes on with more packets,
or the handler has asked for its end after the last of those that came. -/
theorem arrival_event (disconnects : List Message → Bool) (hempty : EmptyChecksum H) {conn : RecvConn}
    {got todo : List Packet}
    {chunks : List Chunk} {more : Bytes} (h : Arrived H testnet conn got todo)
    (hstream : conn.recvBuffer ++ (bytesOf chunks ++ more) = todo.flatMap (Packet.bytes H testnet))
    (hfit : conn.recvBuffer.length + (bytesOf chunks).length ≤ recvBufferCap) :
    ∃ new left, todo = new ++ left ∧
      let r := handleReadable H (magicBytes testnet) disconnects conn ⟨chunks, .again⟩
      Arrived H testnet r.1 (got ++ new) [] ∧
      r.1.recvBuffer ++ more = left.flatMap (Packet.bytes H testnet) ∧
      (∀ k, got.length < k → k < (got ++ new).length →
        disconnects (((got ++ new).map (Packet.message H)).take k) = false) ∧
      ((r.2 = .alive ∧ Arrived H testnet r.1 (got ++ new) left ∧
          (new ≠ [] → disconnects ((got ++ new).map (Packet.message H)) = false)) ∨
        (r.2 = .dropped ∧ new ≠ [] ∧ disconnects ((got ++ new).map (Packet.message H)) = true)) := by
  obtain ⟨c, fs, hb, hf, hparsed, hsized⟩ :=
    handleReadable_again H (magicBytes testnet) disconnects h.sized hfit
  have hlexes := hparsed.lexes
  rw [hb] at hlexes
  rw [← List.append_assoc] at hstream
  obtain ⟨new, left, rfl, rfl, hrest⟩ := packets_of_lexes hempty hlexes hstream
  have hcm : c.messages = got.map (Packet.message H) := by
    rw [RecvConn.messages, hf, ← RecvConn.messages, h.messages]
  have hframes := hparsed.frames
  rw [hf, h.frames, ← List.map_append] at hframes
  refine ⟨new, left, rfl, ?_⟩
  generalize handleReadable H (magicBytes testnet) disconnects conn ⟨chunks, .again⟩ = r at *
  have harrived : Arrived H testnet r.1 (got ++ new) [] := ⟨hsized, hframes, by simp⟩
  have hquiet := hparsed.quiet
  have hending := hparsed.ending
  rw [hcm, harrived.messages] at hquiet hending
  simp only [List.length_map] at hquiet hending
  have hnew : got.length < (got ++ new).length ↔ new ≠ [] := by
    rw [List.length_append, ← List.length_pos_iff]
    omega
  rw [hnew] at hending
  refine ⟨harrived, hrest, hquiet, ?_⟩
  rcases hending with ⟨ha, hi, hq⟩ | ⟨-, hl⟩ | ⟨ha, hne, hd⟩
  · exact .inl ⟨ha, ⟨hsized, hframes, short_of_incomplete hempty hrest hi⟩, hq⟩
  · exact absurd hl (not_tooLarge hempty hrest)
  · exact .inr ⟨ha, hne, hd⟩

/-- The bytes in the buffer, before and behind the packets that an event completes. -/
theorem length_after_event {before after more : Bytes} {new left : List Packet}
    (hstream : before ++ more = (new ++ left).flatMap (Packet.bytes H testnet))
    (hrest : after ++ more = left.flatMap (Packet.bytes H testnet)) :
    before.length = (new.map fun p => (p.bytes H testnet).length).sum + after.length := by
  have hlen := congrArg List.length hstream
  have hlen' := congrArg List.length hrest
  rw [List.flatMap_append, List.length_append, List.length_append, List.length_flatMap] at hlen
  rw [List.length_append] at hlen'
  omega

theorem take_messages (ps qs : List Packet) {k : ℕ} (hk : k ≤ ps.length) :
    ((ps ++ qs).map (Packet.message H)).take k = (ps.map (Packet.message H)).take k := by
  rw [List.map_append, List.take_append_of_le_length (by rwa [List.length_map])]

/-- Packets that came without a disconnect do not count any more. -/
theorem keepsConnection_append {got new left : List Packet}
    (hquiet : ∀ k, got.length < k → k < (got ++ new).length →
      disconnects (((got ++ new).map (Packet.message H)).take k) = false)
    (hnew : new ≠ [] → disconnects ((got ++ new).map (Packet.message H)) = false) :
    KeepsConnection H disconnects got.length (got ++ new ++ left) ↔
      KeepsConnection H disconnects (got ++ new).length (got ++ new ++ left) := by
  constructor
  · intro h k hlo hhi
    exact h k (by rw [List.length_append] at hlo; omega) hhi
  · intro h k hlo hhi
    rcases Nat.lt_trichotomy k (got ++ new).length with hk | hk | hk
    · rw [take_messages _ _ hk.le]
      exact hquiet k hlo hk
    · rw [take_messages _ _ hk.le, hk, List.take_of_length_le (by rw [List.length_map])]
      apply hnew
      rintro rfl
      rw [List.append_nil] at hk
      omega
    · exact h k hk hhi

theorem sizes_of_flatMap_nil {evs : List (List Chunk)} (h : evs.flatMap bytesOf = []) :
    ∀ size ∈ evs.map (fun chunks => (bytesOf chunks).length), size = 0 := by
  intro size hsize
  obtain ⟨chunks, hmem, rfl⟩ := List.mem_map.mp hsize
  rw [List.flatMap_eq_nil_iff.mp h chunks hmem, List.length_nil]

theorem arrival_iff (hempty : EmptyChecksum H) (evs : List (List Chunk)) (last : List Chunk) (conn : RecvConn)
    (got todo : List Packet) (h : Arrived H testnet conn got todo)
    (hstream : conn.recvBuffer ++ (evs.flatMap bytesOf ++ bytesOf last) = todo.flatMap (Packet.bytes H testnet)) :
    (handleEvents H (magicBytes testnet) disconnects conn (eventsThenEof evs last)).1.messages =
        (got ++ todo).map (Packet.message H) ↔
      last = [] ∧
        FitsBuffer (todo.map fun p => (p.bytes H testnet).length) conn.recvBuffer.length
          (evs.map fun chunks => (bytesOf chunks).length) ∧
        KeepsConnection H disconnects got.length (got ++ todo) := by
  induction evs generalizing conn got todo with
  | nil =>
    have hclosed := (handleReadable_unparsed H (magicBytes testnet) disconnects (readLoop_eof conn last)).1
    rw [eventsThenEof, List.map_nil, List.nil_append, handleEvents_cons, if_neg hclosed, arrival_eof h hstream]
    simp only [List.map_nil, FitsBuffer, true_and]
  | cons chunks evs ih =>
    rw [List.flatMap_cons, List.append_assoc] at hstream
    rw [eventsThenEof, List.map_cons, List.cons_append, ← eventsThenEof, handleEvents_cons, List.map_cons, FitsBuffer,
      pending_of_short h.short]
    by_cases hfit : conn.recvBuffer.length + (bytesOf chunks).length ≤ recvBufferCap
    · obtain ⟨new, left, rfl, harrived, hrest, hquiet, hending⟩ := arrival_event disconnects hempty h hstream hfit
      generalize handleReadable H (magicBytes testnet) disconnects conn ⟨chunks, .again⟩ = r at *
      have hlen := length_after_event (by rwa [List.append_assoc]) hrest
      rw [List.length_append] at hlen
      have hshift : FitsBuffer ((new ++ left).map fun p => (p.bytes H testnet).length)
          ((new.map fun p => (p.bytes H testnet).length).sum + r.1.recvBuffer.length)
          (evs.map fun chunks => (bytesOf chunks).length) ↔
          FitsBuffer (left.map fun p => (p.bytes H testnet).length) r.1.recvBuffer.length
            (evs.map fun chunks => (bytesOf chunks).length) := by
        rw [List.map_append, fitsBuffer_shift]
      rw [hlen, hshift, ← List.append_assoc]
      rcases hending with ⟨ha, harr, hnew⟩ | ⟨hd, hne, hdisc⟩
      · have hfit' := hlen ▸ hfit
        rw [if_pos ha, ih r.1 (got ++ new) left harr hrest, keepsConnection_append hquiet hnew, and_iff_right hfit']
      · rw [if_neg (by rw [hd]; nofun), harrived.messages, map_eq_of_append]
        constructor
        · rintro rfl
          obtain ⟨hbuf, hmore⟩ := List.append_eq_nil_iff.mp hrest
          obtain ⟨hevs, hlast⟩ := List.append_eq_nil_iff.mp hmore
          rw [hbuf]
          refine ⟨eq_nil_of_bytesOf hlast, ⟨?_, fitsBuffer_zeros (sizes_of_flatMap_nil hevs)⟩, ?_⟩
          · rw [hbuf] at hlen
            exact hlen ▸ hfit
          · rw [List.append_nil]
            exact hquiet
        · rintro ⟨-, -, hkeeps⟩
          by_contra hleft
          have hleft' := List.length_pos_iff.mpr hleft
          have hne' := List.length_pos_iff.mpr hne
          have hk := hkeeps (got ++ new).length (by rw [List.length_append]; omega)
            (by simp only [List.length_append]; omega)
          rw [take_messages _ _ le_rfl, List.take_of_length_le (by rw [List.length_map]), hdisc] at hk
          contradiction
    · have hle : conn.recvBuffer.length ≤ recvBufferCap := by
        obtain ⟨⟨a, -, ha, hsize⟩, hlen⟩ := h.sized
        rw [hsize] at hlen
        exact hlen.trans (Nat.pow_le_pow_right (by norm_num) ha)
      have hdropped := readLoop_overflow h.sized .again hle (Nat.lt_of_not_le hfit)
      obtain ⟨hstatus, hframes⟩ := handleReadable_unparsed H (magicBytes testnet) disconnects
        (by rw [hdropped]; nofun)
      rw [if_neg hstatus, RecvConn.messages, hframes, ← RecvConn.messages, h.messages, map_eq_of_append]
      constructor
      · rintro rfl
        have hnil := congrArg List.length hstream
        rw [List.length_append, List.length_append, List.flatMap_nil, List.length_nil] at hnil
        unfold recvBufferCap at hfit
        omega
      · rintro ⟨-, ⟨hfit', -⟩, -⟩
        exact absurd hfit' hfit

end Arrival

/-- Packets that arrive in any chunks over any events are all dispatched, in order, exactly when no data is
read in the event that reads the end of the stream, no event brings the buffer above its limit, and the
handler keeps the connection until the last packet. -/
theorem packets_dispatched_iff (H : Hashes) (hempty : EmptyChecksum H) (testnet : Bool)
    (disconnects : List Message → Bool) (ps : List Packet) (evs : List (List Chunk)) (last : List Chunk)
    (hstream : evs.flatMap bytesOf ++ bytesOf last = ps.flatMap (Packet.bytes H testnet)) :
    (handleEvents H (magicBytes testnet) disconnects .new (eventsThenEof evs last)).1.messages =
        ps.map (Packet.message H) ↔
      last = [] ∧
        FitsBuffer (ps.map fun p => (p.bytes H testnet).length) 0 (evs.map fun chunks => (bytesOf chunks).length) ∧
        KeepsConnection H disconnects 0 ps := by
  have hnew : Arrived H testnet .new [] ps := ⟨sized_new, rfl, fun p _ => length_bytes_pos p⟩
  exact arrival_iff hempty evs last .new [] ps hnew hstream

/-- The bytes of the packet in one chunk. -/
def verackChunk : Chunk := ⟨verackPacket.bytes emptyStringHashes false, by decide, by decide⟩

/-- The packet `addr` without an address. -/
def addrPacket : Packet := ⟨[0x61, 0x64, 0x64, 0x72], [0], Nat.le_of_ble_eq_true rfl⟩

/-- What is sent between two positions of the stream of both packets. -/
def cut (lo hi : ℕ) : Bytes :=
  (([verackPacket, addrPacket].flatMap (Packet.bytes emptyStringHashes false)).take hi).drop lo

def cutChunk (lo hi : ℕ) (hne : cut lo hi ≠ []) (hle : (cut lo hi).length ≤ initRecvBufferSize) : Chunk :=
  ⟨cut lo hi, hne, hle⟩

/-- The first event has the first packet and some of the second, the first cut in two; the end of the stream
comes in an event of its own. -/
theorem cut_packets_dispatched :
    (handleEvents emptyStringHashes (magicBytes false) (fun got => decide (2 ≤ got.length)) .new (eventsThenEof
      [[cutChunk 0 10 (by decide) (by decide), cutChunk 10 30 (by decide) (by decide)],
        [cutChunk 30 49 (by decide) (by decide)]] [])).1.messages =
      [verackPacket.message emptyStringHashes, addrPacket.message emptyStringHashes] := by
  refine (packets_dispatched_iff emptyStringHashes rfl false (fun got => decide (2 ≤ got.length))
    [verackPacket, addrPacket] [[cutChunk 0 10 (by decide) (by decide), cutChunk 10 30 (by decide) (by decide)],
      [cutChunk 30 49 (by decide) (by decide)]] [] (by decide)).mpr ⟨rfl, by decide, fun k hlo hlt => ?_⟩
  have hk : k = 1 := by
    simp only [List.length_cons, List.length_nil] at hlt
    omega
  rw [hk]
  rfl

/-- The end of the stream is read together with the packet: the packet is complete and lost. -/
theorem verack_with_eof_lost :
    ¬ ∀ (ps : List Packet) (evs : List (List Chunk)) (last : List Chunk),
      evs.flatMap bytesOf ++ bytesOf last = ps.flatMap (Packet.bytes emptyStringHashes false) →
      (handleEvents emptyStringHashes (magicBytes false) (fun _ => false) .new (eventsThenEof evs last)).1.messages =
        ps.map (Packet.message emptyStringHashes) := by
  intro h
  have hlost := congrArg List.length (h [verackPacket] [] [verackChunk] rfl)
  revert hlost
  decide

end Bitmessage
