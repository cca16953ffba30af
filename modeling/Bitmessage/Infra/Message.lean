import Bitmessage.Common.Buffer
import Bitmessage.Common.Hash

/-! The packets that nodes exchange: magic bytes, a command, the length and the checksum
of the payload, and the payload. -/

namespace Bitmessage

/-- `BM_MESSAGE_HEADER_SIZE`. -/
def messageHeaderSize : ℕ := 24

/-- `BM_MAX_MESSAGE_LENGTH`. -/
def maxMessageLength : ℕ := 4 * 1024 * 1024

/-- `MAGIC_MAINNET` and `MAGIC_TESTNET`, the two values of `bm_magicbytes`. -/
def magicBytes (testnet : Bool) : Bytes :=
  if testnet then [0xfb, 0x11, 0x09, 0x07] else [0xe9, 0xbe, 0xb4, 0xd9]

/-- `bm_empty_payload_checksum`. -/
def emptyPayloadChecksum : Bytes := [0xcf, 0x83, 0xe1, 0x35]

/-- `struct bm_message`; its length is that of the payload. -/
structure Message where
  command : Bytes
  checksum : ℕ
  payload : Bytes
  payload_length : payload.length ≤ maxMessageLength

/-- The payload in a buffer of its own. -/
def Message.buffer (msg : Message) : Buf :=
  Buf.ofBytes msg.payload (lt_of_le_of_lt msg.payload_length (by unfold maxMessageLength; norm_num))

/-- `enum bm_parse_result`, with the message and the number of bytes that a caller may skip. -/
inductive ParseResult
  | ok (msg : Message) (consumed : ℕ)
  | incomplete
  | badChecksum (consumed : ℕ)
  | badMagic (consumed : ℕ)
  | messageTooLarge

/-- `*out_consumed`. -/
def ParseResult.consumed : ParseResult → ℕ
  | .ok _ n | .badChecksum n | .badMagic n => n
  | .incomplete | .messageTooLarge => 0

/-- `bm_parse_message`, for the magic bytes that are in force. -/
def parseMessage (H : Hashes) (magic data : Bytes) : ParseResult :=
  if data.length < messageHeaderSize then .incomplete
  else if data.take 4 ≠ magic then .badMagic 1
  else
    let length := Radix.beNat ((data.drop 16).take 4)
    if hmax : maxMessageLength < length then .messageTooLarge
    else
      let total := messageHeaderSize + length
      if data.length < total then .incomplete
      else
        let payload := (data.drop messageHeaderSize).take length
        let checksum := (data.drop 20).take 4
        if (H.sha512 payload).take 4 ≠ checksum then .badChecksum total
        else .ok ⟨(data.drop 4).take 12, Radix.beNat checksum, payload,
          (List.length_take_le _ _).trans (Nat.le_of_not_lt hmax)⟩ total

section Stability
variable (H : Hashes) (magic : Bytes) {data : Bytes}

theorem slice_append {off len : ℕ} (hle : off + len ≤ data.length) (more : Bytes) :
    ((data ++ more).drop off).take len = (data.drop off).take len := by
  rw [List.drop_append_of_le_length (by omega), List.take_append_of_le_length (by rw [List.length_drop]; omega)]

/-- A finished answer of the parser does not depend on what follows in the buffer. -/
theorem parseMessage_append (h : parseMessage H magic data ≠ .incomplete) (more : Bytes) :
    parseMessage H magic (data ++ more) = parseMessage H magic data := by
  have hheader : ¬ data.length < messageHeaderSize := fun hlt => h (if_pos hlt)
  have hheader' : ¬ (data ++ more).length < messageHeaderSize := by rw [List.length_append]; omega
  unfold parseMessage at h ⊢
  rw [if_neg hheader] at h
  rw [if_neg hheader, if_neg hheader']
  unfold messageHeaderSize at *
  have hmagic : (data ++ more).take 4 = data.take 4 := List.take_append_of_le_length (by omega)
  have hcommand := slice_append (show 4 + 12 ≤ data.length by omega) more
  have hlength := slice_append (show 16 + 4 ≤ data.length by omega) more
  have hchecksum := slice_append (show 20 + 4 ≤ data.length by omega) more
  simp only [hmagic, hcommand, hlength, hchecksum]
  by_cases hm : data.take 4 ≠ magic
  · rw [if_pos hm, if_pos hm]
  rw [if_neg hm] at h
  rw [if_neg hm, if_neg hm]
  by_cases hmax : maxMessageLength < Radix.beNat ((data.drop 16).take 4)
  · rw [dif_pos hmax, dif_pos hmax]
  simp only [hmax, dite_false] at h ⊢
  have htotal : ¬ data.length < 24 + Radix.beNat ((data.drop 16).take 4) := fun hlt => h (if_pos hlt)
  have htotal' : ¬ (data ++ more).length < 24 + Radix.beNat ((data.drop 16).take 4) := by
    rw [List.length_append]; omega
  have hpayload := slice_append (Nat.le_of_not_lt htotal) more
  simp only [htotal, htotal', hpayload, if_false]

theorem consumed_parseMessage_le : (parseMessage H magic data).consumed ≤ data.length := by
  unfold parseMessage
  split_ifs with hheader hm
  · exact Nat.zero_le _
  · show 1 ≤ data.length
    unfold messageHeaderSize at hheader
    omega
  · simp only
    split_ifs with hmax htotal hsum
    · exact Nat.zero_le _
    · exact Nat.zero_le _
    · exact Nat.le_of_not_lt htotal
    · exact Nat.le_of_not_lt htotal

theorem consumed_parseMessage_pos (h : parseMessage H magic data ≠ .incomplete)
    (hlarge : parseMessage H magic data ≠ .messageTooLarge) : 0 < (parseMessage H magic data).consumed := by
  unfold parseMessage at h hlarge ⊢
  split_ifs at h hlarge ⊢ with hheader hm
  · contradiction
  · exact Nat.one_pos
  · simp only at h hlarge ⊢
    split_ifs at h hlarge ⊢ with hmax htotal hsum
    · contradiction
    · contradiction
    · exact Nat.add_pos_left (by unfold messageHeaderSize; norm_num) _
    · exact Nat.add_pos_left (by unfold messageHeaderSize; norm_num) _

end Stability

/-! ### The packets that the node writes -/

/-- The command and the payload of a packet that `bm_parse_message` will take. -/
structure Packet where
  command : Bytes
  payload : Bytes
  payload_length : payload.length ≤ maxMessageLength

section Packets
variable (H : Hashes)

/-- The four bytes that `bm_create_packet` writes before the payload. -/
def packetChecksum (payload : Bytes) : Bytes :=
  if 0 < payload.length then (H.sha512 payload).take 4 else emptyPayloadChecksum

/-- The field of twelve bytes for a command, cut or filled up with zeros. -/
def commandField (command : Bytes) : Bytes := (command ++ List.replicate 12 0).take 12

/-- `bm_create_packet`. -/
def createPacket (magic command payload : Bytes) : Bytes :=
  magic ++ (commandField command ++ (Radix.beBytes 4 payload.length ++ (packetChecksum H payload ++ payload)))

/-- The message that a packet is. -/
def Packet.message (p : Packet) : Message :=
  ⟨commandField p.command, Radix.beNat (packetChecksum H p.payload), p.payload, p.payload_length⟩

@[simp] theorem length_commandField (command : Bytes) : (commandField command).length = 12 := by
  simp [commandField]

@[simp] theorem length_magicBytes (testnet : Bool) : (magicBytes testnet).length = 4 := by
  cases testnet <;> rfl

@[simp] theorem length_packetChecksum (payload : Bytes) : (packetChecksum H payload).length = 4 := by
  unfold packetChecksum
  split_ifs
  · simp [H.length_sha512]
  · rfl

theorem length_createPacket (testnet : Bool) (command payload : Bytes) :
    (createPacket H (magicBytes testnet) command payload).length = messageHeaderSize + payload.length := by
  simp only [createPacket, List.length_append, length_magicBytes, length_commandField, Radix.length_beBytes,
    length_packetChecksum, messageHeaderSize]
  omega

/-- The hash of the empty string starts with the constant that the code keeps for it. -/
def EmptyChecksum : Prop := (H.sha512 []).take 4 = emptyPayloadChecksum

theorem packetChecksum_eq {H : Hashes} (hempty : EmptyChecksum H) (payload : Bytes) :
    packetChecksum H payload = (H.sha512 payload).take 4 := by
  unfold packetChecksum
  split_ifs with hpos
  · rfl
  · rw [List.eq_nil_of_length_eq_zero (by omega : payload.length = 0)]
    exact hempty.symm

/-- A packet at the start of the buffer is parsed, whatever follows. -/
theorem parseMessage_createPacket {H : Hashes} (hempty : EmptyChecksum H) (testnet : Bool) (p : Packet)
    (more : Bytes) :
    parseMessage H (magicBytes testnet) (createPacket H (magicBytes testnet) p.command p.payload ++ more) =
      .ok (p.message H) (messageHeaderSize + p.payload.length) := by
  have hp := p.payload_length
  have hlen : Radix.beNat (Radix.beBytes 4 p.payload.length) = p.payload.length :=
    Radix.beNat_beBytes_of_lt (lt_of_le_of_lt hp (by unfold maxMessageLength; norm_num))
  obtain ⟨data, hdata⟩ : ∃ data, createPacket H (magicBytes testnet) p.command p.payload ++ more = data := ⟨_, rfl⟩
  have hlength : data.length = 24 + p.payload.length + more.length := by
    rw [← hdata, List.length_append, length_createPacket, messageHeaderSize]
  have hmagic : data.take 4 = magicBytes testnet := by
    simp [← hdata, createPacket]
  have hcommand : (data.drop 4).take 12 = commandField p.command := by
    simp [← hdata, createPacket]
  have hlen' : (data.drop 16).take 4 = Radix.beBytes 4 p.payload.length := by
    simp [← hdata, createPacket, List.drop_append, List.drop_of_length_le]
  have hchecksum : (data.drop 20).take 4 = packetChecksum H p.payload := by
    simp [← hdata, createPacket, List.drop_append, List.drop_of_length_le]
  have hpayload : (data.drop 24).take p.payload.length = p.payload := by
    simp [← hdata, createPacket, List.drop_append, List.drop_of_length_le]
  rw [hdata]
  unfold parseMessage messageHeaderSize
  simp only [hmagic, hcommand, hlen', hlen, hchecksum, hpayload, packetChecksum_eq hempty, ne_eq,
    not_true_eq_false, if_false]
  rw [if_neg (by omega), dif_neg (by omega), if_neg (by omega)]
  simp [Packet.message, packetChecksum_eq hempty]

end Packets

/-- What `bm_create_packet` makes of a packet. -/
def Packet.bytes (H : Hashes) (testnet : Bool) (p : Packet) : Bytes :=
  createPacket H (magicBytes testnet) p.command p.payload

/-- A hash function with the value of SHA-512 at the empty string. -/
def emptyStringHashes : Hashes where
  sha512 _ := [0xcf, 0x83, 0xe1, 0x35, 0x7e, 0xef, 0xb8, 0xbd, 0xf1, 0x54, 0x28, 0x50, 0xd6, 0x6d, 0x80, 0x07,
    0xd6, 0x20, 0xe4, 0x05, 0x0b, 0x57, 0x15, 0xdc, 0x83, 0xf4, 0xa9, 0x21, 0xd3, 0x6c, 0xe9, 0xce,
    0x47, 0xd0, 0xd1, 0x3c, 0x5d, 0x85, 0xf2, 0xb0, 0xff, 0x83, 0x18, 0xd2, 0x87, 0x7e, 0xec, 0x2f,
    0x63, 0xb9, 0x31, 0xbd, 0x47, 0x41, 0x7a, 0x81, 0xa5, 0x38, 0x32, 0x7a, 0xf9, 0x27, 0xda, 0x3e]
  ripemd160 _ := List.replicate 20 0
  length_sha512 _ := rfl
  length_ripemd160 _ := rfl

/-- The packet `verack`. -/
def verackPacket : Packet := ⟨[0x76, 0x65, 0x72, 0x61, 0x63, 0x6b], [], Nat.zero_le _⟩

end Bitmessage
