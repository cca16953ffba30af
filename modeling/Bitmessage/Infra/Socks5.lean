import Bitmessage.Core.MessageBuilder
import Bitmessage.Lib.Delivery

/-! The handshake with a SOCKS5 proxy in front of a connection: what it takes off the socket, in whatever
pieces the answers of the proxy arrive, and what it writes into its buffers. The answer with a name of 255
bytes is one byte longer than the buffer it is thrown into. -/

namespace Bitmessage

open Traced Delivery

/-- The buffers of `socks5_connect`. -/
inductive Socks5Buf
  | methodResp
  | req
  | replyHead
  | lenByte
  | discard
  deriving DecidableEq

def Socks5Buf.size : Socks5Buf → ℕ
  | methodResp => 2
  | req => 4 + 1 + 255 + 2
  | replyHead => 4
  | lenByte => 1
  | discard => 256

/-- The bytes `[off, off + len)` of a buffer are written. -/
structure Socks5Write where
  buf : Socks5Buf
  off : ℕ
  len : ℕ
  deriving DecidableEq

def Socks5Write.InBounds (w : Socks5Write) : Prop := w.off + w.len ≤ w.buf.size

instance (w : Socks5Write) : Decidable w.InBounds := Nat.decLe _ _

/-- The socket: what comes from the proxy, the room that is made for what goes to it, and what went. -/
structure ProxySocket where
  incoming : Source UInt8
  outgoing : Source Unit
  sent : Bytes

abbrev Socks5 := Traced Socks5Write ProxySocket

/-- `socks5_send_all`. -/
def socks5SendAll (data : Bytes) : Socks5 Unit := fun s =>
  ([], (readAll data.length data.length [] s.outgoing).map fun r =>
    ((), { s with outgoing := r.2, sent := s.sent ++ data }))

/-- One `recv`, with the waits in front of it. -/
def socks5Recv (buf : Socks5Buf) (off room : ℕ) : Socks5 Bytes := fun s =>
  match read room s.incoming with
  | none => ([], none)
  | some (xs, incoming) => ([⟨buf, off, xs.length⟩], some (xs, { s with incoming := incoming }))

/-- The loop of `socks5_recv_all` with `got` in the buffer. -/
def socks5RecvFrom (buf : Socks5Buf) (len : ℕ) : ℕ → Bytes → Socks5 Bytes
  | 0, got => pure got
  | fuel + 1, got =>
    if got.length < len then do
      let xs ← socks5Recv buf got.length (len - got.length)
      socks5RecvFrom buf len fuel (got ++ xs)
    else pure got

/-- `socks5_recv_all`. Every round brings a byte at least. -/
def socks5RecvAll (buf : Socks5Buf) (len : ℕ) : Socks5 Bytes := socks5RecvFrom buf len len []

/-- Write the parts of the request one behind the other. -/
def putParts : ℕ → List Bytes → Socks5 Unit
  | _, [] => pure ()
  | off, part :: parts => do
    emit ⟨.req, off, part.length⟩
    putParts (off + part.length) parts

/-- The parts of the request: a name of a domain, whatever the host is. -/
def requestParts (host : CString) (port : ℕ) : List Bytes :=
  [[0x05], [0x01], [0x00], [0x03], [UInt8.ofNat host.bytes.length], host.bytes, [UInt8.ofNat (port / 256)],
    [UInt8.ofNat port]]

/-- The length of `BND.ADDR`, for which a name has a byte of its own. -/
def bndAddrLen (atyp : UInt8) : Socks5 ℕ :=
  if atyp = 0x01 then pure 4
  else if atyp = 0x04 then pure 16
  else if atyp = 0x03 then do
    let lenByte ← socks5RecvAll .lenByte 1
    pure (lenByte.headD 0).toNat
  else stop

/-- What follows once the head of the reply is there. -/
def socks5Discard (atyp : UInt8) : Socks5 Unit := do
  let len ← bndAddrLen atyp
  let _ ← socks5RecvAll .discard (len + 2)
  pure ()

/-- The reply to the request. -/
def socks5Reply : Socks5 Unit := do
  let head ← socks5RecvAll .replyHead 4
  require (head.take 2 = [0x05, 0x00])
  socks5Discard (head.getD 3 0)

/-- `socks5_connect`, which fails where the source answers `-1`. -/
def socks5Connect (host : CString) (port : ℕ) : Socks5 Unit := do
  require (host.bytes.length ≠ 0 ∧ host.bytes.length ≤ 255)
  socks5SendAll [0x05, 0x01, 0x00]
  let methodResp ← socks5RecvAll .methodResp 2
  require (methodResp = [0x05, 0x00])
  putParts 0 (requestParts host port)
  socks5SendAll (requestParts host port).flatten
  socks5Reply

/-! ### The loops -/

section

variable {buf : Socks5Buf} {s t : ProxySocket}

theorem result_socks5Recv (off room : ℕ) (s : ProxySocket) : (socks5Recv buf off room).result s =
    (read room s.incoming).map fun r => (r.1, { s with incoming := r.2 }) := by
  unfold socks5Recv result
  simp only
  cases read room s.incoming <;> rfl

theorem result_socks5RecvFrom (len fuel : ℕ) (got : Bytes) (s : ProxySocket) :
    (socks5RecvFrom buf len fuel got).result s =
      (readAll len fuel got s.incoming).map fun r => (r.1, { s with incoming := r.2 }) := by
  induction fuel generalizing got s with
  | zero => rfl
  | succ fuel ih =>
    rw [socks5RecvFrom, readAll]
    split_ifs
    · rw [result_bind, result_socks5Recv]
      cases read (len - got.length) s.incoming with
      | none => rfl
      | some r => exact ih (got ++ r.1) { s with incoming := r.2 }
    · rfl

/-- The writes end where the bytes do that arrive, or at the length. -/
theorem safe_socks5RecvFrom {len fuel : ℕ} {got : Bytes} (hfuel : len ≤ got.length + fuel)
    (hgot : got.length ≤ buf.size) (s : ProxySocket) :
    Safe Socks5Write.InBounds (socks5RecvFrom buf len fuel got) s ↔
      min len (got.length + (delivered s.incoming).length) ≤ buf.size := by
  induction fuel generalizing got s with
  | zero =>
    refine ⟨fun _ => ?_, fun _ => safe_pure _ _⟩
    omega
  | succ fuel ih =>
    rw [socks5RecvFrom]
    split_ifs with hmissing
    · cases hread : read (len - got.length) s.incoming with
      | none =>
        have hnone : (socks5Recv buf got.length (len - got.length)) s = ([], none) := by
          simp only [socks5Recv, hread]
        rw [safe_bind, result_socks5Recv, hread, read_eq_none.mp hread]
        refine ⟨fun _ => ?_, fun _ => ⟨?_, fun _ _ h => by cases h⟩⟩
        · rw [List.length_nil]
          omega
        · intro e he
          rw [trace, hnone] at he
          cases he
      | some r =>
        obtain ⟨hlen, hdelivered, hne⟩ := read_eq_some hread
        have hpos := List.length_pos_iff.mpr (hne (by omega))
        have hsome : (socks5Recv buf got.length (len - got.length)) s =
            ([⟨buf, got.length, r.1.length⟩], some (r.1, { s with incoming := r.2 })) := by
          simp only [socks5Recv, hread]
        have hone : Safe Socks5Write.InBounds (socks5Recv buf got.length (len - got.length)) s ↔
            got.length + r.1.length ≤ buf.size := by
          unfold Safe trace
          rw [hsome]
          simp [Socks5Write.InBounds]
        rw [safe_bind_of_result (by rw [result_socks5Recv, hread]; rfl), hone, hdelivered, List.length_append]
        constructor
        · rintro ⟨hfit, hrest⟩
          rw [ih (by rw [List.length_append]; omega) (by rw [List.length_append]; omega)] at hrest
          rw [List.length_append] at hrest
          simp only at hrest
          omega
        · intro hmin
          have hfit : got.length + r.1.length ≤ buf.size := by omega
          refine ⟨hfit, ?_⟩
          rw [ih (by rw [List.length_append]; omega) (by rw [List.length_append]; omega), List.length_append]
          simp only
          omega
    · refine ⟨fun _ => ?_, fun _ => safe_pure _ _⟩
      omega

theorem safe_socks5RecvAll (len : ℕ) (s : ProxySocket) : Safe Socks5Write.InBounds (socks5RecvAll buf len) s ↔
    min len (delivered s.incoming).length ≤ buf.size := by
  have := @safe_socks5RecvFrom buf len len [] (by simp) (by simp) s
  rwa [List.length_nil, Nat.zero_add] at this

/-- What was asked for was taken off the socket, and nothing else has changed. -/
theorem socks5RecvAll_eq_some {len : ℕ} {xs : Bytes} (h : (socks5RecvAll buf len).result s = some (xs, t)) :
    xs.length = len ∧ delivered s.incoming = xs ++ delivered t.incoming ∧ t.outgoing = s.outgoing := by
  rw [socks5RecvAll, result_socks5RecvFrom, Option.map_eq_some_iff] at h
  obtain ⟨r, hread, heq⟩ := h
  cases heq
  obtain ⟨hlen, hdelivered⟩ := readAll_eq_some hread (by simp) (by simp)
  exact ⟨hlen, hdelivered, rfl⟩

/-- What arrives can be taken off. -/
theorem socks5RecvAll_of_delivered {xs rest : Bytes} (h : delivered s.incoming = xs ++ rest) :
    ∃ t, (socks5RecvAll buf xs.length).result s = some (xs, t) ∧ delivered t.incoming = rest ∧
      t.outgoing = s.outgoing := by
  have hsome : ∃ r, readAll xs.length xs.length [] s.incoming = some r := by
    rw [readAll_isSome (by simp) (by simp), h, List.length_append, List.length_nil]
    omega
  obtain ⟨r, hread⟩ := hsome
  have hresult : (socks5RecvAll buf xs.length).result s = some (r.1, { s with incoming := r.2 }) := by
    rw [socks5RecvAll, result_socks5RecvFrom, hread]
    rfl
  obtain ⟨hlen, hdelivered, -⟩ := socks5RecvAll_eq_some hresult
  rw [h] at hdelivered
  obtain ⟨hxs, hrest⟩ := List.append_inj hdelivered hlen.symm
  exact ⟨_, hxs ▸ hresult, hrest.symm, rfl⟩

theorem safe_socks5SendAll (data : Bytes) (s : ProxySocket) : Safe Socks5Write.InBounds (socks5SendAll data) s := by
  intro e he
  cases he

theorem result_socks5SendAll (data : Bytes) (s : ProxySocket) : (socks5SendAll data).result s =
    (readAll data.length data.length [] s.outgoing).map fun r =>
      ((), { s with outgoing := r.2, sent := s.sent ++ data }) := rfl

theorem socks5SendAll_eq_some {data : Bytes} {u : Unit} (h : (socks5SendAll data).result s = some (u, t)) :
    t.incoming = s.incoming ∧ (delivered s.outgoing).length = data.length + (delivered t.outgoing).length := by
  rw [result_socks5SendAll, Option.map_eq_some_iff] at h
  obtain ⟨r, hread, heq⟩ := h
  cases heq
  obtain ⟨hlen, hdelivered⟩ := readAll_eq_some hread (by simp) (by simp)
  rw [List.nil_append] at hdelivered
  refine ⟨rfl, ?_⟩
  rw [hdelivered, List.length_append, hlen]

theorem socks5SendAll_of_room {data : Bytes} (h : data.length ≤ (delivered s.outgoing).length) :
    ∃ t, (socks5SendAll data).result s = some ((), t) := by
  have hsome : ∃ r, readAll data.length data.length [] s.outgoing = some r := by
    rw [readAll_isSome (by simp) (by simp), List.length_nil]
    omega
  obtain ⟨r, hread⟩ := hsome
  refine ⟨{ s with outgoing := r.2, sent := s.sent ++ data }, ?_⟩
  rw [result_socks5SendAll, hread]
  rfl

theorem result_putParts (off : ℕ) (parts : List Bytes) (s : ProxySocket) :
    (putParts off parts).result s = some ((), s) := by
  induction parts generalizing off with
  | nil => rfl
  | cons part parts ih => rw [putParts, result_emit_bind, ih]

theorem safe_putParts {off : ℕ} {parts : List Bytes} (h : off + parts.flatten.length ≤ Socks5Buf.req.size)
    (s : ProxySocket) : Safe Socks5Write.InBounds (putParts off parts) s := by
  induction parts generalizing off with
  | nil => exact safe_pure _ _
  | cons part parts ih =>
    rw [List.flatten_cons, List.length_append] at h
    rw [putParts, safe_emit_bind]
    refine ⟨?_, ih (by omega)⟩
    show off + part.length ≤ Socks5Buf.req.size
    omega

theorem length_requestParts (host : CString) (port : ℕ) :
    (requestParts host port).flatten.length = host.bytes.length + 7 := by
  simp [requestParts]

theorem safe_socks5RecvAll_bind {len : ℕ} (hfit : len ≤ buf.size) {α : Type} {f : Bytes → Socks5 α} :
    Safe Socks5Write.InBounds (socks5RecvAll buf len >>= f) s ↔
      ∀ xs t, (socks5RecvAll buf len).result s = some (xs, t) → Safe Socks5Write.InBounds (f xs) t := by
  rw [safe_bind, safe_socks5RecvAll]
  exact and_iff_right (by omega)

end

/-! ### What is consumed -/

/-- An address as long as its type says. -/
def BndAddr (atyp : UInt8) (addr : Bytes) : Prop :=
  (atyp = 0x01 ∧ addr.length = 4) ∨ (atyp = 0x04 ∧ addr.length = 16) ∨
    (atyp = 0x03 ∧ ∃ len name, addr = len :: name ∧ name.length = len.toNat)

/-- One reply to `CONNECT` that tells of success. -/
def ConnectReply (bs : Bytes) : Prop :=
  ∃ rsv atyp addr bndPort, bs = [0x05, 0x00, rsv, atyp] ++ (addr ++ bndPort) ∧ BndAddr atyp addr ∧ bndPort.length = 2

/-- The reply with a name of 255 bytes, all of which arrives. -/
def LongestName (bs : Bytes) : Prop :=
  ∃ rsv rest, bs = [0x05, 0x00, rsv, 0x03] ++ (0xff :: rest) ∧ 255 + 2 ≤ rest.length

section

variable {s t : ProxySocket}

theorem bndAddrLen_eq_some {atyp : UInt8} {n : ℕ} (h : (bndAddrLen atyp).result s = some (n, t)) :
    ∃ front, delivered s.incoming = front ++ delivered t.incoming ∧
      ∀ name : Bytes, name.length = n → BndAddr atyp (front ++ name) := by
  unfold bndAddrLen at h
  split_ifs at h with h4 h16 hname
  · cases h
    exact ⟨[], rfl, fun name hlen => .inl ⟨h4, hlen⟩⟩
  · cases h
    exact ⟨[], rfl, fun name hlen => .inr (.inl ⟨h16, hlen⟩)⟩
  · obtain ⟨xs, u, hread, hrest⟩ := result_bind_eq_some.mp h
    cases hrest
    obtain ⟨hlen, hdelivered, -⟩ := socks5RecvAll_eq_some hread
    obtain ⟨len, rfl⟩ := List.length_eq_one_iff.mp hlen
    exact ⟨[len], hdelivered, fun name hn => .inr (.inr ⟨hname, len, name, rfl, hn⟩)⟩
  · cases h

theorem socks5Discard_eq_some {atyp : UInt8} (h : (socks5Discard atyp).result s = some ((), t)) :
    ∃ addr bndPort, delivered s.incoming = addr ++ bndPort ++ delivered t.incoming ∧ BndAddr atyp addr ∧
      bndPort.length = 2 := by
  obtain ⟨n, u, hlen, hrest⟩ := result_bind_eq_some.mp h
  obtain ⟨xs, v, hread, hlast⟩ := result_bind_eq_some.mp hrest
  cases hlast
  obtain ⟨front, hfront, haddr⟩ := bndAddrLen_eq_some hlen
  obtain ⟨hxs, hdelivered, -⟩ := socks5RecvAll_eq_some hread
  refine ⟨front ++ xs.take n, xs.drop n, ?_, haddr _ ?_, ?_⟩
  · rw [hfront, hdelivered, List.append_assoc front, List.take_append_drop, List.append_assoc]
  · rw [List.length_take]
    omega
  · rw [List.length_drop]
    omega

theorem socks5Reply_eq_some (h : socks5Reply.result s = some ((), t)) :
    ∃ reply, ConnectReply reply ∧ delivered s.incoming = reply ++ delivered t.incoming := by
  obtain ⟨head, u, hread, hrest⟩ := result_bind_eq_some.mp h
  obtain ⟨_, v, hreq, hdiscard⟩ := result_bind_eq_some.mp hrest
  obtain ⟨hok, rfl⟩ := result_require_eq_some.mp hreq
  obtain ⟨hlen, hdelivered, -⟩ := socks5RecvAll_eq_some hread
  obtain ⟨addr, bndPort, haddr, htype, hport⟩ := socks5Discard_eq_some hdiscard
  obtain ⟨a, b, rsv, atyp, rfl⟩ := List.length_eq_four.mp hlen
  cases hok
  refine ⟨_, ⟨rsv, atyp, addr, bndPort, rfl, htype, hport⟩, ?_⟩
  rw [hdelivered, haddr, ← List.append_assoc]

/-- When the handshake succeeds it has taken the answer to the greeting and one reply off the socket. -/
theorem socks5Connect_eq_some {host : CString} {port : ℕ} (h : (socks5Connect host port).result s = some ((), t)) :
    ∃ reply, ConnectReply reply ∧ delivered s.incoming = [0x05, 0x00] ++ reply ++ delivered t.incoming := by
  obtain ⟨_, s0, hhost, h0⟩ := result_bind_eq_some.mp h
  obtain ⟨-, rfl⟩ := result_require_eq_some.mp hhost
  obtain ⟨_, s1, hgreet, h1⟩ := result_bind_eq_some.mp h0
  obtain ⟨method, s2, hmethod, h2⟩ := result_bind_eq_some.mp h1
  obtain ⟨_, s3, hagreed, h3⟩ := result_bind_eq_some.mp h2
  obtain ⟨hok, rfl⟩ := result_require_eq_some.mp hagreed
  obtain ⟨_, s4, hput, h4⟩ := result_bind_eq_some.mp h3
  rw [result_putParts] at hput
  cases hput
  obtain ⟨_, s5, hsend, h5⟩ := result_bind_eq_some.mp h4
  obtain ⟨reply, hreply, hdelivered⟩ := socks5Reply_eq_some h5
  refine ⟨reply, hreply, ?_⟩
  rw [← (socks5SendAll_eq_some hgreet).1, (socks5RecvAll_eq_some hmethod).2.1, hok, ← (socks5SendAll_eq_some hsend).1,
    hdelivered, List.append_assoc]

/-! ### What is written -/

/-- Whatever is thrown away fits, but for the longest name. -/
theorem safe_socks5Discard (atyp : UInt8) : Safe Socks5Write.InBounds (socks5Discard atyp) s ↔
    ¬ (atyp = 0x03 ∧ ∃ rest, delivered s.incoming = 0xff :: rest ∧ 255 + 2 ≤ rest.length) := by
  have hdiscard : ∀ (n : ℕ) (u : ProxySocket), Safe Socks5Write.InBounds
      (do let _ ← socks5RecvAll .discard (n + 2); pure () : Socks5 Unit) u ↔
      min (n + 2) (delivered u.incoming).length ≤ 256 := by
    intro n u
    rw [safe_bind, safe_socks5RecvAll]
    exact and_iff_left fun _ _ _ => safe_pure _ _
  unfold socks5Discard bndAddrLen
  split_ifs with h4 h16 hname
  · rw [ret_bind, hdiscard]
    refine ⟨?_, fun _ => by omega⟩
    rintro - ⟨rfl, -⟩
    cases h4
  · rw [ret_bind, hdiscard]
    refine ⟨?_, fun _ => by omega⟩
    rintro - ⟨rfl, -⟩
    cases h16
  · rw [seq_assoc, safe_socks5RecvAll_bind (by decide)]
    simp only [ret_bind, hdiscard]
    constructor
    · rintro hall ⟨-, rest, hrest, hlong⟩
      obtain ⟨u, hread, hu, -⟩ := @socks5RecvAll_of_delivered .lenByte s [0xff] rest hrest
      have := hall _ u hread
      rw [hu, show (List.headD [0xff] 0 : UInt8).toNat = 255 from rfl] at this
      omega
    · intro hno xs u hread
      obtain ⟨hlen, hdelivered, -⟩ := socks5RecvAll_eq_some hread
      obtain ⟨len, rfl⟩ := List.length_eq_one_iff.mp hlen
      have hbyte := len.toNat_lt
      by_contra hlong
      rw [List.headD_cons] at hlong
      have h255 : len.toNat = 255 := by omega
      have hff : len = 0xff := by
        rw [← UInt8.toNat_inj, h255]
        rfl
      exact hno ⟨hname, delivered u.incoming, by rw [hdelivered, hff, List.singleton_append], by omega⟩
  · refine ⟨fun _ => fun hbad => hname hbad.1, fun _ => ?_⟩
    rw [safe_bind]
    exact ⟨safe_stop _, fun _ _ h => by cases h⟩

theorem safe_socks5Reply : Safe Socks5Write.InBounds socks5Reply s ↔ ¬ LongestName (delivered s.incoming) := by
  unfold socks5Reply
  rw [safe_socks5RecvAll_bind (by decide)]
  simp only [safe_require_bind, safe_socks5Discard]
  constructor
  · rintro hall ⟨rsv, rest, hrest, hlong⟩
    obtain ⟨u, hread, hu, -⟩ := @socks5RecvAll_of_delivered .replyHead s [0x05, 0x00, rsv, 0x03] (0xff :: rest) hrest
    exact hall _ u hread rfl ⟨rfl, rest, hu, hlong⟩
  · rintro hno xs u hread hok ⟨hname, rest, hrest, hlong⟩
    obtain ⟨hlen, hdelivered, -⟩ := socks5RecvAll_eq_some hread
    obtain ⟨a, b, rsv, atyp, rfl⟩ := List.length_eq_four.mp hlen
    cases hok
    have hatyp : atyp = 0x03 := hname
    exact hno ⟨rsv, rest, by rw [hdelivered, hrest, hatyp], hlong⟩

/-- The proxy takes the greeting and the request, agrees to the method, and names its side with 255 bytes. -/
def OverlongReply (host : CString) (s : ProxySocket) : Prop :=
  3 + (host.bytes.length + 7) ≤ (delivered s.outgoing).length ∧
    ∃ reply, delivered s.incoming = [0x05, 0x00] ++ reply ∧ LongestName reply

/-- The writes of the handshake stay in their buffers exactly when there is no such reply. -/
theorem safe_socks5Connect {host : CString} (hpos : 1 ≤ host.bytes.length) (hmax : host.bytes.length ≤ 255) (port : ℕ) :
    Safe Socks5Write.InBounds (socks5Connect host port) s ↔ ¬ OverlongReply host s := by
  have hlen := length_requestParts host port
  have hput : ∀ u, Safe Socks5Write.InBounds (putParts 0 (requestParts host port)) u :=
    safe_putParts (by rw [hlen]; show 0 + (host.bytes.length + 7) ≤ 262; omega)
  unfold socks5Connect
  rw [safe_require_bind]
  constructor
  · rintro hsafe ⟨hroom, reply, hreply, hlong⟩
    have h1 := hsafe ⟨by omega, hmax⟩
    obtain ⟨s1, hgreet⟩ := @socks5SendAll_of_room s [0x05, 0x01, 0x00] (by simp; omega)
    have h2 := ((safe_bind_of_result hgreet).mp h1).2
    obtain ⟨hin, hout⟩ := socks5SendAll_eq_some hgreet
    rw [← hin] at hreply
    obtain ⟨s2, hmethod, hs2, hout2⟩ := socks5RecvAll_of_delivered hreply
    have h3 := (safe_socks5RecvAll_bind (by decide)).mp h2 _ s2 hmethod
    rw [safe_require_bind] at h3
    have h4 := ((safe_bind_of_result (result_putParts _ _ _)).mp (h3 rfl)).2
    have hroom2 : (requestParts host port).flatten.length ≤ (delivered s2.outgoing).length := by
      rw [hout2]
      simp only [List.length_cons, List.length_nil] at hout
      omega
    obtain ⟨s3, hsend⟩ := socks5SendAll_of_room hroom2
    have h5 := ((safe_bind_of_result hsend).mp h4).2
    rw [safe_socks5Reply, (socks5SendAll_eq_some hsend).1, hs2] at h5
    exact h5 hlong
  · intro hno _
    rw [safe_bind]
    refine ⟨safe_socks5SendAll _ _, ?_⟩
    intro _ s1 hgreet
    rw [safe_socks5RecvAll_bind (by decide)]
    intro method s2 hmethod
    rw [safe_require_bind]
    intro hok
    rw [safe_bind_of_result (result_putParts _ _ _)]
    refine ⟨hput s2, ?_⟩
    rw [safe_bind]
    refine ⟨safe_socks5SendAll _ _, ?_⟩
    intro _ s3 hsend
    rw [safe_socks5Reply]
    intro hlong
    obtain ⟨hin, hout⟩ := socks5SendAll_eq_some hgreet
    obtain ⟨-, hdelivered, hout2⟩ := socks5RecvAll_eq_some hmethod
    obtain ⟨hin3, hout3⟩ := socks5SendAll_eq_some hsend
    refine hno ⟨?_, _, by rw [← hin, hdelivered, hok, ← hin3], hlong⟩
    simp only [List.length_cons, List.length_nil] at hout
    rw [hout2] at hout3
    omega

/-- The handshake keeps to its buffers, and takes exactly the answer to the greeting and one reply when it
succeeds, if and only if the reply does not name 255 bytes that all arrive. -/
theorem socks5_handshake_iff {host : CString} (hpos : 1 ≤ host.bytes.length) (hmax : host.bytes.length ≤ 255) (port : ℕ)
    (s : ProxySocket) :
    (Safe Socks5Write.InBounds (socks5Connect host port) s ∧
      ∀ t, (socks5Connect host port).result s = some ((), t) →
        ∃ reply, ConnectReply reply ∧ delivered s.incoming = [0x05, 0x00] ++ reply ++ delivered t.incoming) ↔
      ¬ OverlongReply host s := by
  rw [safe_socks5Connect hpos hmax port]
  exact and_iff_left fun t h => socks5Connect_eq_some h

end

/-- A proxy that names its side with 255 bytes. -/
def longNameProxy : ProxySocket where
  incoming := [.data 0x05 [0x00], .data 0x05 ([0x00, 0x00, 0x03, 0xff] ++ List.replicate 257 0x61)]
  outgoing := [.data () (List.replicate 10 ())]
  sent := []

/-- The last byte of the port is written behind the buffer. -/
theorem discard_overrun : ¬ ∀ (host : CString) (port : ℕ) (s : ProxySocket),
    1 ≤ host.bytes.length → host.bytes.length ≤ 255 → Safe Socks5Write.InBounds (socks5Connect host port) s := by
  intro h
  have hsafe := h ⟨[0x61], by simp⟩ 8444 longNameProxy (by decide) (by decide)
  rw [safe_socks5Connect (by decide) (by decide)] at hsafe
  refine hsafe ⟨by decide, [0x05, 0x00, 0x00, 0x03, 0xff] ++ List.replicate 257 0x61, ?_, 0x00,
    List.replicate 257 0x61, rfl, by rw [List.length_replicate]⟩
  simp only [longNameProxy, delivered, List.append_nil]
  rfl

/-- A proxy that names an address of four bytes, and a byte of the peer behind it. -/
def shortNameProxy : ProxySocket where
  incoming := [.data 0x05 [0x00, 0x05], .again, .data 0x00 [0x00, 0x01, 1, 2, 3, 4, 0x20, 0xfc, 0x2a]]
  outgoing := [.data () (List.replicate 10 ())]
  sent := []

theorem socks5_handshake_short : ∃ t, (socks5Connect ⟨[0x61], by simp⟩ 8444).result shortNameProxy = some ((), t) ∧
    delivered t.incoming = [0x2a] ∧
      Safe Socks5Write.InBounds (socks5Connect ⟨[0x61], by simp⟩ 8444) shortNameProxy := by
  refine ⟨_, rfl, rfl, ((socks5_handshake_iff (by decide) (by decide) 8444 _).mpr ?_).1⟩
  rintro ⟨-, reply, hreply, rsv, rest, hrest, -⟩
  subst hrest
  cases hreply

end Bitmessage
