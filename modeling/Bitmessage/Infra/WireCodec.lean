import Bitmessage.Core.MessageBuilder
import Bitmessage.Common.ReadBack
import Bitmessage.Infra.Message
import Bitmessage.Infra.Protocol

/-! The packets that the node writes and the parsers that its peers run on them. An inventory
and a list of addresses are records of a fixed size behind a count; the inventory parser
does not look at the count and divides the size of the payload. The `version` message has
a fixed part, a string and a list of streams. What a creator writes, the parser of the
same message reads back. -/

namespace Bitmessage

open Traced BufParser Radix

/-! ### inv and dinv -/

/-- The payload of `bm_create_inventory_message`. -/
def inventoryPayload (hashes : List Bytes) : Bytes := varintEncode hashes.length ++ hashes.flatten

/-- `bm_create_inventory_message`. -/
def createInventoryMessage (H : Hashes) (magic command : Bytes) (hashes : List Bytes) : Bytes :=
  createPacket H magic command (inventoryPayload hashes)

/-- The loop over the items, from index `i` with `n` items to go. -/
def parseInventoryItems (b : Buf) (cap : ℕ) : ℕ → ℕ → BufParser (List Bytes)
  | 0, _ => pure []
  | n + 1, i => do
    let item ← bytes .object b 32
    emit (.write cap (32 * i) 32)
    let rest ← parseInventoryItems b cap n (i + 1)
    pure (item :: rest)

/-- `bm_parse_inventory_message`; stopping is the return value `-1`. The declared count is not used. -/
def parseInventoryMessage (malloc : ℕ → Bool) (b : Buf) : BufParser (List Bytes) := do
  let _ ← varint .object b
  let offset ← get
  emit (.remaining .object offset)
  let left := subW b.size offset
  require (left % 32 = 0)
  parseInventoryItems b (capacity malloc (mulW 32 (left / 32))) (left / 32) 0

section

variable {b : Buf} {malloc : ℕ → Bool} {p : ℕ}

theorem length_flatten_hashes {hashes : List Bytes} (h : ∀ x ∈ hashes, x.length = 32) :
    hashes.flatten.length = 32 * hashes.length := by
  induction hashes with
  | nil => rfl
  | cons x xs ih =>
    have hx := h x List.mem_cons_self
    have hxs := ih fun y hy => h y (List.mem_cons_of_mem x hy)
    simp only [List.flatten_cons, List.length_append, List.length_cons, hx, hxs]
    omega

theorem Buf.Rest.inventoryItems {hashes : List Bytes} (h : ∀ x ∈ hashes, x.length = 32) {cap i : ℕ}
    (hrest : b.Rest p hashes.flatten) :
    (parseInventoryItems b cap hashes.length i).result p = some (hashes, p + 32 * hashes.length) := by
  induction hashes generalizing p i with
  | nil => simp [parseInventoryItems]
  | cons x xs ih =>
    have hx := h x List.mem_cons_self
    rw [List.flatten_cons] at hrest
    have htail := hrest.append
    rw [hx] at htail
    simp only [List.length_cons, parseInventoryItems, result_bind, hrest.bytes hx, hx, Option.bind_some, result_emit,
      ih (fun y hy => h y (List.mem_cons_of_mem x hy)) htail, result_pure]
    simp only [Option.some.injEq, Prod.mk.injEq, true_and]
    ring

/-- The inventory parser reads back every list of hashes. -/
theorem parseInventoryMessage_payload {hashes : List Bytes} (h : ∀ x ∈ hashes, x.length = 32)
    (hb : b.bytes = inventoryPayload hashes) :
    (parseInventoryMessage malloc b).result 0 = some (hashes, b.size) := by
  have hlt := b.size_lt
  have hrest := Buf.rest_zero hb
  have hsize := hrest.size
  have hflat := length_flatten_hashes h
  rw [inventoryPayload, List.length_append, hflat] at hsize
  have hcount : hashes.length < wordSize := by unfold wordSize; omega
  have hleft : subW b.size (0 + (varintEncode hashes.length).length) = 32 * hashes.length := by
    rw [subW_of_le (by unfold wordSize; omega) (by omega)]
    omega
  have hdiv : 32 * hashes.length / 32 = hashes.length := Nat.mul_div_cancel_left _ (by norm_num)
  simp only [parseInventoryMessage, result_bind, Buf.Rest.varint hrest hcount, Option.bind_some, result_get, result_emit,
    hleft, Nat.mul_mod_right, result_require, if_true, hdiv]
  rw [hrest.append.inventoryItems h, hsize, Nat.add_assoc]

end

/-! ### addr -/

/-- The values that the fields of `struct bm_address_info` can have. -/
structure AddressInfo.Valid (e : AddressInfo) : Prop where
  time : e.time < 2 ^ 64
  stream : e.stream < 2 ^ 32
  services : e.services < 2 ^ 64
  ip : e.ip.length = 16
  port : e.port < 2 ^ 16

/-- One entry of `bm_create_addr_message`. -/
def AddressInfo.bytes (e : AddressInfo) : Bytes :=
  beBytes 8 e.time ++ (beBytes 4 e.stream ++ (beBytes 8 e.services ++ (e.ip ++ beBytes 2 e.port)))

/-- The payload of `bm_create_addr_message`. -/
def addrPayload (addresses : List AddressInfo) : Bytes :=
  varintEncode addresses.length ++ addresses.flatMap AddressInfo.bytes

/-- `addr`. -/
def addrCommand : Bytes := [0x61, 0x64, 0x64, 0x72]

/-- `bm_create_addr_message`, `NULL` for the empty list. -/
def createAddrMessage (H : Hashes) (magic : Bytes) (addresses : List AddressInfo) : Option Bytes :=
  if addresses = [] then none else some (createPacket H magic addrCommand (addrPayload addresses))

section

variable {b : Buf} {malloc : ℕ → Bool} {p : ℕ}

theorem AddressInfo.Valid.length_bytes {e : AddressInfo} (h : e.Valid) : e.bytes.length = 38 := by
  simp [AddressInfo.bytes, h.ip]

theorem length_flatMap_addresses {addresses : List AddressInfo} (h : ∀ e ∈ addresses, e.Valid) :
    (addresses.flatMap AddressInfo.bytes).length = 38 * addresses.length := by
  induction addresses with
  | nil => rfl
  | cons e es ih =>
    have he := (h e List.mem_cons_self).length_bytes
    have hes := ih fun y hy => h y (List.mem_cons_of_mem e hy)
    simp only [List.flatMap_cons, List.length_append, List.length_cons, he, hes]
    omega

/-- The entry in the 38 bytes at the cursor is the one that was written there. -/
theorem Buf.Rest.addrEntryAt {e : AddressInfo} (he : e.Valid) {rest : Bytes} (hrest : b.Rest p (e.bytes ++ rest)) :
    addrEntryAt b p = e := by
  simp only [AddressInfo.bytes, List.append_assoc] at hrest
  have htime := hrest.slice
  have hstream := hrest.append.slice
  have hservices := hrest.append.append.slice
  have hip := hrest.append.append.append.slice
  have hport := hrest.append.append.append.append.slice
  simp only [length_beBytes, he.ip, Nat.add_assoc, Nat.reduceAdd] at htime hstream hservices hip hport
  unfold Bitmessage.addrEntryAt
  rw [htime, hstream, hservices, hip, hport, beNat_beBytes_of_lt he.time, beNat_beBytes_of_lt he.stream,
    beNat_beBytes_of_lt he.services, beNat_beBytes_of_lt he.port]

theorem Buf.Rest.addrEntries {addresses : List AddressInfo} (h : ∀ e ∈ addresses, e.Valid)
    (hrest : b.Rest p (addresses.flatMap AddressInfo.bytes)) :
    (List.range addresses.length).map (fun j => Bitmessage.addrEntryAt b (p + 38 * j)) = addresses := by
  induction addresses generalizing p with
  | nil => rfl
  | cons e es ih =>
    have he := h e List.mem_cons_self
    rw [List.flatMap_cons] at hrest
    have htail := hrest.append
    rw [he.length_bytes] at htail
    have hes := ih (fun y hy => h y (List.mem_cons_of_mem e hy)) htail
    rw [List.length_cons, List.range_succ_eq_map, List.map_cons, List.map_map, Nat.mul_zero, Nat.add_zero,
      hrest.addrEntryAt he]
    refine congrArg (List.cons e) (Eq.trans (List.map_congr_left fun j _ => ?_) hes)
    simp only [Function.comp_apply]
    congr 1
    omega

/-- The `addr` parser reads back every list of entries. -/
theorem parseAddrMessage_payload {addresses : List AddressInfo} (h : ∀ e ∈ addresses, e.Valid)
    (hb : b.bytes = addrPayload addresses) :
    (parseAddrMessage malloc b).result 0 = some (addresses, b.size) := by
  have hlt := b.size_lt
  have hrest := Buf.rest_zero hb
  have hsize := hrest.size
  have hflat := length_flatMap_addresses h
  rw [addrPayload, List.length_append, hflat] at hsize
  have hcount : addresses.length < wordSize := by unfold wordSize; omega
  have hentries := hrest.append
  rw [parseAddrMessage, result_bind, Buf.Rest.varint hrest hcount, Option.bind_some]
  simp only
  rw [result_parseAddrEntries (by omega), if_pos (by omega), hentries.addrEntries h, hsize, Nat.add_assoc]

end

/-! ### version -/

/-- `BM_SERVICE_NODE_DANDELION`. -/
def serviceNodeDandelion : ℕ := 8

/-- What `bm_encode_network_address` reads of a `struct sockaddr_storage`; addresses and ports are in
network byte order. -/
inductive SockAddr
  | inet (addr port : Bytes) (length_addr : addr.length = 4) (length_port : port.length = 2)
  | inet6 (addr port : Bytes) (length_addr : addr.length = 16) (length_port : port.length = 2)
  | other

/-- `bm_encode_network_address`. -/
def encodeNetworkAddress : SockAddr → Bytes
  | .inet addr port _ _ => List.replicate 10 0 ++ ([0xff, 0xff] ++ (addr ++ (List.replicate 8 0 ++ port)))
  | .inet6 addr port _ _ => List.replicate 8 0 ++ (addr ++ port)
  | .other => List.replicate 26 0

/-- `bm_varstr_encode`. -/
def varstrEncode (str : CString) : Bytes := varintEncode str.bytes.length ++ str.bytes

/-- `bm_create_version_payload`, at the time and with the nonce that it takes. -/
def createVersionPayload (userAgent : CString) (version : ℤ) (peerAddr localAddr : SockAddr) (time : ℤ) (nonce : ℕ) :
    Bytes :=
  beBytes 4 (version % 2 ^ 32).toNat ++ (beBytes 8 serviceNodeDandelion ++ (beBytes 8 (ofInt64 time) ++
    (encodeNetworkAddress peerAddr ++ (encodeNetworkAddress localAddr ++ (beBytes 8 nonce ++
      (varstrEncode userAgent ++ [1, 1]))))))

/-- The fields that `bm_create_version_payload` writes. -/
def writtenVersion (userAgent : CString) (version : ℤ) (peerAddr localAddr : SockAddr) (time : ℤ) (nonce : ℕ) :
    VersionMessage where
  version := (version % 2 ^ 32).toNat
  services := serviceNodeDandelion
  timestamp := ofInt64 time
  addrRecv := encodeNetworkAddress peerAddr
  addrFrom := encodeNetworkAddress localAddr
  nonce := nonce
  userAgent := userAgent.bytes
  streamNumbers := [1]

theorem length_encodeNetworkAddress (addr : SockAddr) : (encodeNetworkAddress addr).length = 26 := by
  cases addr with
  | inet addr port haddr hport => simp [encodeNetworkAddress, haddr, hport]
  | inet6 addr port haddr hport => simp [encodeNetworkAddress, haddr, hport]
  | other => simp [encodeNetworkAddress]

theorem ofInt64_lt (v : ℤ) : ofInt64 v < wordSize := by
  unfold ofInt64 wordSize
  omega

section

variable {b : Buf} {malloc : ℕ → Bool} {p : ℕ} {rest : Bytes}

theorem Buf.Rest.varintDecodeAt {v : ℕ} (h : b.Rest p (varintEncode v ++ rest)) (hv : v < wordSize) :
    (BufParser.varintDecodeAt .object b).result p = some (((varintEncode v).length, v), p) := by
  have hsize := h.size
  rw [List.length_append] at hsize
  have hat : b.varintAt p = some (v, p + (varintEncode v).length) := by
    rw [length_varintEncode]
    obtain ⟨front, hbytes, rfl⟩ := h
    exact Buf.varintAt_of_bytes hv hbytes
  rw [result_varintDecodeAt (by omega)]
  unfold Buf.varintAt at hat
  split_ifs at hat
  simp only [Option.some.injEq, Prod.mk.injEq] at hat
  rw [show b.decodeAt p = ((varintEncode v).length, v) from Prod.ext (by omega) hat.1]

theorem varintEncode_one : varintEncode 1 = [1] := rfl

/-- The list of streams, which is always the first one. -/
theorem Buf.Rest.streamNumbers {cap : ℕ} (h : b.Rest p [1]) :
    (parseStreamNumbers b cap 1 0).result p = some ([1], p + 1) := by
  have hone : b.Rest p (varintEncode 1 ++ []) := h
  have hadvance : (BufParser.advance .object 1).result p = some ((), p + 1) := hone.advance
  simp only [parseStreamNumbers, result_bind, hone.varintDecodeAt one_lt_wordSize, varintEncode_one, List.length_singleton,
    Option.bind_some, result_emit, hadvance, result_pure]

/-- The `version` parser reads back the fields that were written. -/
theorem parseVersionMessage_payload {userAgent : CString} {version : ℤ} {peerAddr localAddr : SockAddr} {time : ℤ}
    {nonce : ℕ} (hnonce : nonce < wordSize)
    (hb : b.bytes = createVersionPayload userAgent version peerAddr localAddr time nonce) :
    (parseVersionMessage malloc b).result 0 =
      some (writtenVersion userAgent version peerAddr localAddr time nonce, b.size) := by
  have hlt := b.size_lt
  have h₀ := Buf.rest_zero hb
  unfold createVersionPayload varstrEncode at h₀
  rw [List.append_assoc] at h₀
  have h₁ := h₀.append
  have h₂ := h₁.append
  have h₃ := h₂.append
  have h₄ := h₃.append
  have h₅ := h₄.append
  have h₆ := h₅.append
  have h₇ := h₆.append
  have h₈ : b.Rest _ (varintEncode 1 ++ [1]) := h₇.append
  have h₉ := h₈.append
  have hagent : userAgent.bytes.length < wordSize := by
    have := h₇.size
    rw [List.length_append] at this
    unfold wordSize
    omega
  have hversion : (version % 2 ^ 32).toNat < 256 ^ 4 := by omega
  have hservices : serviceNodeDandelion < 256 ^ 8 := by norm_num [serviceNodeDandelion]
  have hword : wordSize = 256 ^ 8 := by norm_num
  have htime : ofInt64 time < 256 ^ 8 := hword ▸ ofInt64_lt time
  rw [hword] at hnonce
  have hend := h₉.size
  rw [parseVersionMessage, result_bind, h₀.readBe hversion, Option.bind_some, result_bind, h₁.readBe hservices,
    Option.bind_some, result_bind, h₂.readBe htime, Option.bind_some, result_bind,
    h₃.bytes (length_encodeNetworkAddress _), Option.bind_some, result_bind, h₄.bytes (length_encodeNetworkAddress _),
    Option.bind_some, result_bind, h₅.readBe hnonce, Option.bind_some, result_bind, h₆.varintDecodeAt hagent,
    Option.bind_some]
  simp only
  rw [result_bind, h₆.advance, Option.bind_some, result_bind, result_get, Option.bind_some, result_bind, result_emit,
    Option.bind_some, result_bind, result_emit, Option.bind_some, result_bind, result_emit, Option.bind_some, result_bind,
    h₇.advance, Option.bind_some, result_bind, h₈.varintDecodeAt one_lt_wordSize, Option.bind_some]
  simp only
  rw [result_bind, h₈.advance, Option.bind_some, result_bind, h₉.streamNumbers, Option.bind_some, result_pure, h₇.slice,
    hend]
  rfl

end

/-! ### The round trips -/

theorem drop_createPacket (H : Hashes) (testnet : Bool) (command payload : Bytes) :
    (createPacket H (magicBytes testnet) command payload).drop messageHeaderSize = payload := by
  simp [createPacket, messageHeaderSize, List.drop_append, List.drop_of_length_le]

/-- A command that fits is filled up with zeros. -/
theorem commandField_eq {command : Bytes} (h : command.length ≤ 12) :
    commandField command = command ++ List.replicate (12 - command.length) 0 := by
  rw [commandField, List.take_append, List.take_of_length_le h, List.take_replicate]
  congr 2
  omega

/-- A packet is parsed back with its command and payload, whatever follows it, and the payloads of
`inv`, `addr` and `version` are read back as they were written. -/
theorem wire_codec_round_trip {H : Hashes} (hempty : EmptyChecksum H) (testnet : Bool) (malloc : ℕ → Bool) :
    (∀ (command : CString) (payload more : Bytes), command.bytes.length ≤ 12 → payload.length ≤ maxMessageLength →
      ∃ msg, parseMessage H (magicBytes testnet)
          (createPacket H (magicBytes testnet) command.bytes payload ++ more) = .ok msg (24 + payload.length) ∧
        msg.command = command.bytes ++ List.replicate (12 - command.bytes.length) 0 ∧ msg.payload = payload) ∧
    (∀ (command : Bytes) (hashes : List Bytes) (b : Buf), (∀ x ∈ hashes, x.length = 32) →
      b.bytes = (createInventoryMessage H (magicBytes testnet) command hashes).drop messageHeaderSize →
        (parseInventoryMessage malloc b).result 0 = some (hashes, b.size)) ∧
    (∀ addresses : List AddressInfo, addresses ≠ [] → (∀ e ∈ addresses, e.Valid) →
      ∃ packet, createAddrMessage H (magicBytes testnet) addresses = some packet ∧
        ∀ b : Buf, b.bytes = packet.drop messageHeaderSize →
          (parseAddrMessage malloc b).result 0 = some (addresses, b.size)) ∧
    (∀ (userAgent : CString) (version : ℤ) (peerAddr localAddr : SockAddr) (time : ℤ) (nonce : ℕ) (b : Buf),
      nonce < wordSize → b.bytes = createVersionPayload userAgent version peerAddr localAddr time nonce →
        (parseVersionMessage malloc b).result 0 =
          some (writtenVersion userAgent version peerAddr localAddr time nonce, b.size)) := by
  refine ⟨?_, ?_, ?_, ?_⟩
  · intro command payload more hcommand hpayload
    exact ⟨_, parseMessage_createPacket hempty testnet ⟨command.bytes, payload, hpayload⟩ more,
      commandField_eq hcommand, rfl⟩
  · intro command hashes b hlen hb
    rw [createInventoryMessage, drop_createPacket] at hb
    exact parseInventoryMessage_payload hlen hb
  · intro addresses hne hvalid
    refine ⟨_, if_neg hne, fun b hb => ?_⟩
    rw [drop_createPacket] at hb
    exact parseAddrMessage_payload hvalid hb
  · intro userAgent version peerAddr localAddr time nonce b hnonce hb
    exact parseVersionMessage_payload hnonce hb

/-- A list of two hashes and a `verack`, under the hash with the right value at the empty string. -/
theorem wire_codec_two_hashes :
    (∃ msg, parseMessage emptyStringHashes (magicBytes false)
        (createPacket emptyStringHashes (magicBytes false) verackPacket.command [] ++ [7]) = .ok msg 24 ∧
      msg.command = verackPacket.command ++ List.replicate 6 0 ∧ msg.payload = []) ∧
    (parseInventoryMessage (fun _ => true)
      (Buf.ofBytes (2 :: (List.replicate 32 1 ++ List.replicate 32 2)) (by decide))).result 0 =
        some ([List.replicate 32 1, List.replicate 32 2], 65) := by
  have h := wire_codec_round_trip (H := emptyStringHashes) rfl false fun _ => true
  exact ⟨h.1 ⟨verackPacket.command, by simp [verackPacket]⟩ [] [7] (by decide) (by decide),
    h.2.1 [] [List.replicate 32 1, List.replicate 32 2] _ (by simp) (by decide)⟩

end Bitmessage
