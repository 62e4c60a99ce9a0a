import LibPolyCall.Library.Bytes

/-!
# The protocol handler of the Node binding

`ProtocolHandler.js`, as far as it builds and takes in messages. A method runs in `HandlerM`: it
may throw, and keeps what it has done to the handler when it does. A buffer is the list of its
bytes, a message is given as the bytes that `Buffer.from` makes of it, and events are recorded in
the order in which they are emitted. The fields that no method here reads are left out, and a
pending message is its sequence number.

JavaScript's numbers are integers here, and its shifts and its `|` work on their 32 low bits. The
numbers of a checksum stay far below `2^53`, up to which they are exact (`checksumStep_exact` in
`Node/Interop`).
-/

namespace LibPolyCall.Node

open Bytes

/-- `PROTOCOL_CONSTANTS.MAGIC`, "PLC". -/
def magic : ℕ := 0x504C43

/-- `PROTOCOL_CONSTANTS.HEADER_SIZE`. -/
def headerSize : ℕ := 16

/-- `PROTOCOL_CONSTANTS.MAX_PAYLOAD_SIZE`. -/
def maxPayloadSize : ℕ := 1024 * 1024

/-- `PROTOCOL_FLAGS.RELIABLE`. -/
def flagReliable : ℕ := 0x08

/-- What a method throws. -/
inductive Thrown where
  /-- The `RangeError` of a buffer method: a value that does not fit, or an offset outside. -/
  | rangeError
  /-- An `Error` with this message. -/
  | error (message : String)
deriving DecidableEq

/-- The header that `validateHeader` returns. -/
structure Header where
  version : ℕ
  type : ℕ
  flags : ℕ
  sequence : ℕ
  payloadLength : ℕ
  checksum : ℕ
deriving DecidableEq

/-- An event that the handler emits, or the settling of a pending message. -/
inductive Emitted where
  | error (thrown : Thrown)
  | handshake (sequence : ℕ)
  | authenticated (sequence : ℕ)
  | command (sequence : ℕ) (command : List UInt8) (flags : ℕ)
  | resolved (sequence : ℕ) (payload : List UInt8)
  | response (sequence : ℕ) (payload : List UInt8)
  | rejected (sequence : ℕ) (error : List UInt8)
  | errorMessage (sequence : ℕ) (error : List UInt8)
  | heartbeat (sequence timestamp : ℕ)
deriving DecidableEq

/-- A `ProtocolHandler`. -/
structure ProtocolHandler where
  version : ℕ
  sequence : ℕ
  handshakeComplete : Bool
  authenticated : Bool
  lastHeartbeat : Option ℕ
  pendingMessages : List ℕ
  emitted : List Emitted
deriving DecidableEq

/-- A method of the handler. -/
abbrev HandlerM := ExceptT Thrown (StateM ProtocolHandler)

/-- What a method returns or throws on a handler, and the handler that it leaves behind. -/
def HandlerM.call {α : Type} (method : HandlerM α) (handler : ProtocolHandler) :
    Except Thrown α × ProtocolHandler :=
  Id.run (method.run.run handler)

/-- `this.emit(event)`. -/
def emit (event : Emitted) : HandlerM Unit :=
  modify fun handler => { handler with emitted := handler.emitted ++ [event] }

/-! ## Buffers -/

/-- `buffer.writeUInt8(value, offset)`, `writeUInt16LE` and `writeUInt32LE`, by their width. -/
def writeUIntLE (buffer : List UInt8) (value offset width : ℕ) : HandlerM (List UInt8) :=
  if 256 ^ width ≤ value ∨ buffer.length < offset + width then throw .rangeError
  else pure (buffer.take offset ++ encode .little width value ++ buffer.drop (offset + width))

/-- `buffer.readUInt8(offset)`, `readUInt16LE` and `readUInt32LE`, by their width. -/
def readUIntLE (buffer : List UInt8) (offset width : ℕ) : HandlerM ℕ :=
  if buffer.length < offset + width then throw .rangeError
  else pure (readAt .little buffer offset width)

/-! ## Checksum -/

/-- One turn of the loop in `calculateChecksum`: the shifts and the `|` give a signed 32-bit number,
to which the byte is added. -/
def checksumStep (checksum : ℤ) (byte : UInt8) : ℤ :=
  ((BitVec.ofInt 32 checksum <<< 5) ||| (BitVec.ofInt 32 checksum >>> 27)).toInt + byte.toNat

/-- `calculateChecksum`, with the conversion `>>> 0` at its end. -/
def calculateChecksum (data : List UInt8) : ℕ :=
  (BitVec.ofInt 32 (data.foldl checksumStep 0)).toNat

/-! ## Messages -/

/-- `this.sequence++`. -/
def nextSequence : HandlerM ℕ :=
  modifyGet fun handler => (handler.sequence, { handler with sequence := handler.sequence + 1 })

/-- `createHeader`. -/
def createHeader (type payloadLength flags : ℕ) : HandlerM (List UInt8) := do
  let header := List.replicate headerSize (0 : UInt8)
  let header ← writeUIntLE header (← get).version 0 1
  let header ← writeUIntLE header type 1 1
  let header ← writeUIntLE header flags 2 2
  let header ← writeUIntLE header (← nextSequence) 4 4
  let header ← writeUIntLE header payloadLength 8 4
  writeUIntLE header 0 12 4

/-- `validateHeader`. -/
def validateHeader (header : List UInt8) : HandlerM Header := do
  if header.length ≠ headerSize then throw (.error "Invalid header size")
  let version ← readUIntLE header 0 1
  let handler ← get
  if version ≠ handler.version then
    throw (.error ("Protocol version mismatch: expected " ++ toString handler.version ++ ", got " ++
      toString version))
  let payloadLength ← readUIntLE header 8 4
  if maxPayloadSize < payloadLength then throw (.error "Payload size exceeds maximum allowed")
  return {
    version
    type := ← readUIntLE header 1 1
    flags := ← readUIntLE header 2 2
    sequence := ← readUIntLE header 4 4
    payloadLength
    checksum := ← readUIntLE header 12 4 }

/-- `createMessage`. -/
def createMessage (type : ℕ) (payload : List UInt8) (flags : ℕ) : HandlerM (List UInt8) := do
  let header ← createHeader type payload.length flags
  let header ← writeUIntLE header (calculateChecksum payload) 12 4
  return header ++ payload

/-- `handleHandshake`. -/
def handleHandshake (header : Header) (payload : List UInt8) : HandlerM (Option (List UInt8)) := do
  if (← readUIntLE payload 0 4) ≠ magic then throw (.error "Invalid protocol magic number")
  modify fun handler => { handler with handshakeComplete := true }
  emit (.handshake header.sequence)
  return some (← createMessage 0x01 [] flagReliable)

/-- `handleAuth`. -/
def handleAuth (header : Header) : HandlerM Unit := do
  modify fun handler => { handler with authenticated := true }
  emit (.authenticated header.sequence)

/-- `handleCommand`. -/
def handleCommand (header : Header) (payload : List UInt8) : HandlerM Unit :=
  emit (.command header.sequence payload header.flags)

/-- What `handleResponse` and `handleError` share: the pending message of the sequence number, if
there is one, is removed and settled. -/
def settle (header : Header) (event : Emitted) : HandlerM Unit := do
  if header.sequence ∈ (← get).pendingMessages then
    modify fun handler =>
      { handler with pendingMessages := handler.pendingMessages.filter (· ≠ header.sequence) }
    emit event

/-- `handleResponse`. -/
def handleResponse (header : Header) (payload : List UInt8) : HandlerM Unit := do
  settle header (.resolved header.sequence payload)
  emit (.response header.sequence payload)

/-- `handleError`. -/
def handleError (header : Header) (payload : List UInt8) : HandlerM Unit := do
  settle header (.rejected header.sequence payload)
  emit (.errorMessage header.sequence payload)

/-- `handleHeartbeat`, at the time `now`. -/
def handleHeartbeat (now : ℕ) (header : Header) : HandlerM Unit := do
  modify fun handler => { handler with lastHeartbeat := some now }
  emit (.heartbeat header.sequence now)

/-- `handleMessage`, with the reply if there is one. -/
def handleMessage (now : ℕ) (header : Header) (payload : List UInt8) :
    HandlerM (Option (List UInt8)) :=
  match header.type with
  | 0x01 => handleHandshake header payload
  | 0x02 => do handleAuth header; return none
  | 0x03 => do handleCommand header payload; return none
  | 0x04 => do handleResponse header payload; return none
  | 0x05 => do handleError header payload; return none
  | 0x06 => do handleHeartbeat now header; return none
  | type => throw (.error ("Unknown message type: " ++ toString type))

/-- The tests of `processMessage`, which give the header and the payload that it hands to
`handleMessage`. -/
def checkMessage (data : List UInt8) : HandlerM (Header × List UInt8) := do
  if data.length < headerSize then throw (.error "Message too short")
  let header ← validateHeader (data.take headerSize)
  let payload := data.drop headerSize
  if payload.length ≠ header.payloadLength then throw (.error "Payload length mismatch")
  if calculateChecksum payload ≠ header.checksum then
    throw (.error "Checksum verification failed")
  return (header, payload)

/-- `processMessage`, at the time `now`. -/
def processMessage (now : ℕ) (data : List UInt8) : HandlerM (Option (List UInt8)) :=
  tryCatch
    (do
      let (header, payload) ← checkMessage data
      handleMessage now header payload)
    (fun error => do
      emit (.error error)
      throw error)

end LibPolyCall.Node
