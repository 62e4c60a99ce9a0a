import LibPolyCall.StateMachine.Machine

/-!
# Messages

The wire format of `polycall_protocol.h`: a header of sixteen bytes, in the byte order of the
host, and the payload. `MessageHeader.write` is the header in memory, as `polycall_protocol_send`
copies it into its packet, and `MessageHeader.read` is the received data read as a header, as
`polycall_protocol_process` does.
-/

namespace LibPolyCall.Protocol

open Bytes Checksum

/-- `POLYCALL_PROTOCOL_VERSION`. -/
def protocolVersion : UInt8 := 1

/-- `PROTOCOL_BUFFER_SIZE`. -/
def protocolBufferSize : ℕ := 4096

/-- `PROTOCOL_MAGIC`, "PLC". -/
def protocolMagic : ℕ := 0x504C43

/-- `sizeof(polycall_message_header_t)`. -/
def headerSize : ℕ := 16

/-- `polycall_message_type_t`. -/
inductive MessageType where
  | handshake
  | auth
  | command
  | response
  | error
  | heartbeat
deriving DecidableEq, Repr

/-- The value of a message type on the wire. -/
def MessageType.code : MessageType → UInt8
  | .handshake => 0x01
  | .auth => 0x02
  | .command => 0x03
  | .response => 0x04
  | .error => 0x05
  | .heartbeat => 0x06

/-- The message type with this value. -/
def MessageType.ofCode? (code : UInt8) : Option MessageType :=
  [MessageType.handshake, .auth, .command, .response, .error, .heartbeat].find? (·.code = code)

/-- The code of a type stands for this type. -/
@[simp] theorem MessageType.ofCode?_code (type : MessageType) :
    MessageType.ofCode? type.code = some type := by
  cases type <;> rfl

/-- `POLYCALL_FLAG_ENCRYPTED`. -/
def flagEncrypted : UInt16 := 0x01

/-- `POLYCALL_FLAG_RELIABLE`. -/
def flagReliable : UInt16 := 0x08

/-- `polycall_message_header_t`. -/
structure MessageHeader where
  version : UInt8
  type : UInt8
  flags : UInt16
  sequence : UInt32
  payloadLength : UInt32
  checksum : UInt32
deriving DecidableEq

/-- The header in memory. Its fields are aligned, so the compiler leaves no gap. -/
def MessageHeader.write (o : ByteOrder) (header : MessageHeader) : List UInt8 :=
  encode o 1 header.version.toNat ++ (encode o 1 header.type.toNat ++
    (encode o 2 header.flags.toNat ++ (encode o 4 header.sequence.toNat ++
      (encode o 4 header.payloadLength.toNat ++ encode o 4 header.checksum.toNat))))

/-- The data read as a header. -/
def MessageHeader.read (o : ByteOrder) (data : List UInt8) : MessageHeader where
  version := UInt8.ofNat (readAt o data 0 1)
  type := UInt8.ofNat (readAt o data 1 1)
  flags := UInt16.ofNat (readAt o data 2 2)
  sequence := UInt32.ofNat (readAt o data 4 4)
  payloadLength := UInt32.ofNat (readAt o data 8 4)
  checksum := UInt32.ofNat (readAt o data 12 4)

/-- A header takes 16 bytes. -/
@[simp] theorem MessageHeader.length_write (o : ByteOrder) (header : MessageHeader) :
    (header.write o).length = headerSize := by
  simp [write, headerSize]

/-- Each field is found where it was written, whatever follows the header. -/
theorem MessageHeader.readAt_write (o : ByteOrder) (header : MessageHeader)
    (payload : List UInt8) :
    readAt o (header.write o ++ payload) 0 1 = header.version.toNat ∧
      readAt o (header.write o ++ payload) 1 1 = header.type.toNat ∧
      readAt o (header.write o ++ payload) 2 2 = header.flags.toNat ∧
      readAt o (header.write o ++ payload) 4 4 = header.sequence.toNat ∧
      readAt o (header.write o ++ payload) 8 4 = header.payloadLength.toNat ∧
      readAt o (header.write o ++ payload) 12 4 = header.checksum.toNat := by
  obtain ⟨version, type, flags, sequence, payloadLength, checksum⟩ := header
  have hversion := version.toNat_lt
  have htype := type.toNat_lt
  have hflags := flags.toNat_lt
  have hsequence := sequence.toNat_lt
  have hlength := payloadLength.toNat_lt
  have hchecksum := checksum.toNat_lt
  -- Each field lies behind the ones before it, whose widths are added up to its offset.
  simp only [write, List.append_assoc, readAt_append_right, readAt_encode, length_encode,
    Nat.reduceLeDiff, Nat.reduceSub]
  refine ⟨?_, ?_, ?_, ?_, ?_, ?_⟩ <;> rw [decode_encode_of_lt] <;> omega

/-- A header that is read from where it was written is the same. -/
theorem MessageHeader.read_write_append (o : ByteOrder) (header : MessageHeader)
    (payload : List UInt8) : read o (header.write o ++ payload) = header := by
  obtain ⟨hversion, htype, hflags, hsequence, hlength, hchecksum⟩ := header.readAt_write o payload
  simp only [read, hversion, htype, hflags, hsequence, hlength, hchecksum, UInt8.ofNat_toNat,
    UInt16.ofNat_toNat, UInt32.ofNat_toNat]

/-- `polycall_protocol_calculate_checksum`, on data that is not `NULL`. -/
def calculateChecksum (data : List UInt8) : UInt32 :=
  if data.length = 0 then 0 else rotateAdd 5 data

/-- `polycall_protocol_verify_checksum`, on a header and a payload that are not `NULL`. -/
def verifyChecksum (header : MessageHeader) (payload : List UInt8) : Bool :=
  if payload.length = 0 then false else calculateChecksum payload = header.checksum

/-- `validate_message_header`, with the text that it leaves in the error buffer when it refuses
the header. -/
def validateMessageHeader (header : MessageHeader) : Except String Unit :=
  if header.version ≠ protocolVersion then
    .error ("Protocol version mismatch: expected " ++ toString protocolVersion.toNat ++
      ", got " ++ toString header.version.toNat)
  else if header.type < MessageType.handshake.code ∨ MessageType.heartbeat.code < header.type then
    .error ("Invalid message type: " ++ toString header.type.toNat)
  else .ok ()

end LibPolyCall.Protocol
