import Bitmessage.Core.PeerManager
import Bitmessage.Infra.Handshake
import Bitmessage.Lib.Transition

/-! What the network tells of other hosts, and the operations on the table of hosts in any order. An
`addr` message and an onionpeer object come down to entries that are learned one by one; the time of an
entry may be any time that has passed. -/

namespace Bitmessage

/-! ### Base 32 -/

/-- A character of `ALPHABET`. -/
def base32Char (v : ℕ) : UInt8 := UInt8.ofNat (if v % 32 < 26 then 0x61 + v % 32 else 0x32 + (v % 32 - 26))

/-- The state of `base32_encode_lower`. -/
structure Base32State where
  buffer : ℕ
  bits : ℕ
  out : Bytes

/-- One round: the inner loop writes a character for every five bits. -/
def Base32State.put (s : Base32State) (byte : UInt8) : Base32State where
  buffer := (s.buffer * 256 + byte.toNat) % wordSize
  bits := (s.bits + 8) % 5
  out := s.out ++ (List.range ((s.bits + 8) / 5)).map fun i =>
    base32Char ((s.buffer * 256 + byte.toNat) % wordSize / 2 ^ (s.bits + 8 - 5 * (i + 1)))

/-- `base32_encode_lower`. -/
def base32EncodeLower (data : Bytes) : Bytes :=
  let s := data.foldl Base32State.put ⟨0, 0, []⟩
  if 0 < s.bits then s.out ++ [base32Char (s.buffer * 2 ^ (5 - s.bits))] else s.out

theorem bits_foldl_put (data : Bytes) (s : Base32State) :
    (data.foldl Base32State.put s).bits + 5 * (data.foldl Base32State.put s).out.length =
      s.bits + 5 * s.out.length + 8 * data.length := by
  induction data generalizing s with
  | nil => simp
  | cons byte data ih =>
    rw [List.foldl_cons, ih]
    simp only [Base32State.put, List.length_append, List.length_map, List.length_range, List.length_cons]
    omega

theorem bits_foldl_put_lt (data : Bytes) {s : Base32State} (hs : s.bits < 5) :
    (data.foldl Base32State.put s).bits < 5 := by
  induction data generalizing s with
  | nil => exact hs
  | cons byte data ih => exact ih (Nat.mod_lt _ (by decide))

/-- A character for every five bits, and one for the rest. -/
theorem length_base32EncodeLower (data : Bytes) : (base32EncodeLower data).length = (8 * data.length + 4) / 5 := by
  have hsum := bits_foldl_put data ⟨0, 0, []⟩
  have hlt := @bits_foldl_put_lt data ⟨0, 0, []⟩ (by decide)
  simp only [List.length_nil] at hsum
  unfold base32EncodeLower
  simp only
  split_ifs
  · rw [List.length_append, List.length_singleton]
    omega
  · omega

/-! ### The handlers -/

/-- `is_routable_ipv4_peer_address`, which looks at two of the bytes. -/
def isRoutableIpv4PeerAddress (v0 v1 : UInt8) : Bool :=
  !(v0 = 0 || v0 = 10 || v0 = 127 || (v0 = 169 && v1 = 254) || (v0 = 172 && 16 ≤ v1 && v1 ≤ 31) ||
    (v0 = 192 && v1 = 168) || 224 ≤ v0)

/-- `IPV4_MAPPED_PREFIX`. -/
def ipv4MappedPrefix : Bytes := List.replicate 10 0 ++ [0xff, 0xff]

/-- What is learned of an entry of an `addr` message. -/
def addrLearned (now : ℤ) (e : AddressInfo) : Option LearnedHost :=
  if e.port = 0 ∨ e.ip.take 12 ≠ ipv4MappedPrefix ∨
      isRoutableIpv4PeerAddress (e.ip.getD 12 0) (e.ip.getD 13 0) = false ∨ now < toInt64 e.time then none
  else some ⟨ipv4Key (e.ip.getD 12 0) (e.ip.getD 13 0) (e.ip.getD 14 0) (e.ip.getD 15 0) e.port (toInt32 e.stream),
    e.services, toInt64 e.time, .addrMsg⟩

/-- What is learned of an onionpeer object, whose body stands behind the header. -/
def onionpeerLearned (stream : ℕ) (body : Bytes) (now : ℤ) : Option LearnedHost :=
  let (portLen, port) := varintDecode body
  let host := body.drop portLen
  if portLen = 0 ∨ port = 0 ∨ 65535 < port then none
  else if h : host.length = onioncatPrefix.length + 35 ∧ host.take onioncatPrefix.length = onioncatPrefix then
    some ⟨⟨base32EncodeLower (host.drop onioncatPrefix.length) ++ onionSuffix, port, toInt32 stream, by
      rw [List.length_append, length_base32EncodeLower, List.length_drop, h.1, Nat.add_sub_cancel_left]
      decide⟩, 1, now, .onionpeerObj⟩
  else none

section

variable {R : Type*} (P : Ratings R) (hosts : Hosts R)

/-- The command `addr` in `bm_object_sync_dispatch`. -/
def dispatchAddr (addresses : List AddressInfo) (now : ℤ) : Hosts R :=
  ((addresses.take maxInventoryItems).filterMap (addrLearned now)).foldl (peerManagerUpsertLearned P) hosts

/-- `handle_incoming_onionpeer`. -/
def handleIncomingOnionpeer (stream : ℕ) (body : Bytes) (now : ℤ) : Hosts R :=
  (onionpeerLearned stream body now).elim hosts (peerManagerUpsertLearned P hosts)

/-- The head of `bm_peer_connector_connect_initial`. -/
def connectInitialRefresh [LinearOrder R] (testnet : Bool) (observed : List (Bytes × ℤ)) (now : ℤ) : Hosts R :=
  peerManagerSeedBootstrap P (peerManagerCleanup P hosts now).1 testnet observed now

end

/-- Nothing is learned from the future. -/
theorem addrLearned_past {now : ℤ} {e : AddressInfo} {learned : LearnedHost} (h : addrLearned now e = some learned) :
    learned.lastSeen ≤ now := by
  unfold addrLearned at h
  split_ifs at h with hbad
  cases h
  by_contra hfuture
  exact hbad (.inr (.inr (.inr (not_le.mp hfuture))))

theorem onionpeerLearned_now {stream : ℕ} {body : Bytes} {now : ℤ} {learned : LearnedHost}
    (h : onionpeerLearned stream body now = some learned) : learned.lastSeen = now := by
  unfold onionpeerLearned at h
  simp only at h
  split_ifs at h
  cases h
  rfl

/-! ### The operations in any order -/

/-- An operation on the table of hosts. -/
inductive PeerOp
  | learned (host : LearnedHost)
  | result (key : HostKey) (success : Bool)
  | attempt (key : HostKey)
  | cleanup
  | seedBootstrap (testnet : Bool) (observed : List (Bytes × ℤ))
  | markSelf (key : HostKey)

section

variable {R : Type*} [LinearOrder R] (P : Ratings R)

def PeerOp.apply (now : ℤ) (hosts : Hosts R) : PeerOp → Hosts R
  | learned host => peerManagerUpsertLearned P hosts host
  | result key success => peerManagerRecordResult P hosts key success now
  | attempt key => peerManagerRecordAttempt hosts key now
  | cleanup => (peerManagerCleanup P hosts now).1
  | seedBootstrap testnet observed => peerManagerSeedBootstrap P hosts testnet observed now
  | markSelf key => peerManagerMarkSelf P hosts key now

/-- An operation with the clock at which it is done. -/
def peerStep (hosts : Hosts R) (l : ℤ × PeerOp) : Option (Hosts R) := some (l.2.apply P l.1 hosts)

open Transition

theorem run_learned (hosts : Hosts R) (now : ℤ) (learned : List LearnedHost) :
    run (peerStep P) hosts (learned.map fun host => (now, .learned host)) =
      some (learned.foldl (peerManagerUpsertLearned P) hosts) := by
  induction learned generalizing hosts with
  | nil => rfl
  | cons host learned ih => exact ih (peerManagerUpsertLearned P hosts host)

/-- An `addr` message is a run of entries. -/
theorem run_addr (hosts : Hosts R) (addresses : List AddressInfo) (now : ℤ) :
    run (peerStep P) hosts (((addresses.take maxInventoryItems).filterMap (addrLearned now)).map fun host =>
      (now, .learned host)) = some (dispatchAddr P hosts addresses now) :=
  run_learned P hosts now _

/-- An onionpeer object is a run of one entry at most. -/
theorem run_onionpeer (hosts : Hosts R) (stream : ℕ) (body : Bytes) (now : ℤ) :
    run (peerStep P) hosts ((onionpeerLearned stream body now).toList.map fun host => (now, .learned host)) =
      some (handleIncomingOnionpeer P hosts stream body now) := by
  rw [run_learned, handleIncomingOnionpeer]
  rcases onionpeerLearned stream body now with _ | learned
  · rfl
  · rfl

/-- The connector cleans up before it seeds. -/
theorem run_connectInitialRefresh (hosts : Hosts R) (testnet : Bool) (observed : List (Bytes × ℤ)) (now : ℤ) :
    run (peerStep P) hosts [(now, .cleanup), (now, .seedBootstrap testnet observed)] =
      some (connectInitialRefresh P hosts testnet observed now) := rfl

end

end Bitmessage
