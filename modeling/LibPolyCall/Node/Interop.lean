import LibPolyCall.Node.ProtocolHandler
import LibPolyCall.Protocol.Delivery

/-!
# The two ends of the wire

The Node handler and the C library on a little-endian host write the same packets: the two
checksums are one number (`calculateChecksum_eq`), and `createMessage` gives the packet that
`polycall_protocol_send` would (`createMessage_eq_messagePacket`). What the C library sends passes
every test of `processMessage` (`checkMessage_messagePacket`). In the other direction the C library
has two tests that the handler knows nothing of: it refuses empty payloads and responses
(`interoperate_iff`).
-/

namespace LibPolyCall.Node

open Bytes Checksum
open Protocol (MessageHeader MessageType messagePacket protocolVersion)

/-! ## The checksum -/

/-- One turn of the handler's loop is one of the C library's, in the 32 low bits. -/
theorem ofInt_checksumStep {checksum : ℤ} {c : UInt32} (byte : UInt8)
    (h : BitVec.ofInt 32 checksum = c.toBitVec) :
    BitVec.ofInt 32 (checksumStep checksum byte) = (rotateAddStep 5 c byte).toBitVec := by
  have hbyte : BitVec.ofInt 32 (byte.toNat : ℤ) = byte.toUInt32.toBitVec := by
    apply BitVec.eq_of_toNat_eq
    simp [BitVec.ofInt_natCast]
  rw [checksumStep, BitVec.ofInt_add, BitVec.ofInt_toInt, h, hbyte]
  rfl

/-- The handler's loop computes the C library's checksum, in the 32 low bits. -/
theorem ofInt_foldl_checksumStep (data : List UInt8) {checksum : ℤ} {c : UInt32}
    (h : BitVec.ofInt 32 checksum = c.toBitVec) :
    BitVec.ofInt 32 (data.foldl checksumStep checksum) =
      (data.foldl (rotateAddStep 5) c).toBitVec := by
  induction data generalizing checksum c with
  | nil => exact h
  | cons byte data ih => exact ih (ofInt_checksumStep byte h)

/-- The two checksums are the same. -/
theorem calculateChecksum_eq (data : List UInt8) :
    calculateChecksum data = (Protocol.calculateChecksum data).toNat := by
  have hzero : BitVec.ofInt 32 0 = (0 : UInt32).toBitVec := rfl
  rw [calculateChecksum, ofInt_foldl_checksumStep data hzero, Protocol.calculateChecksum]
  split_ifs with hempty
  · rw [List.length_eq_zero_iff.1 hempty]
    rfl
  · rfl

/-- One turn of the handler's loop gives a number of 32 bits and a byte, which JavaScript has
exactly. -/
theorem checksumStep_exact (checksum : ℤ) (byte : UInt8) :
    -2 ^ 53 < checksumStep checksum byte ∧ checksumStep checksum byte < 2 ^ 53 := by
  unfold checksumStep
  -- Whatever the 32 bits are, as a signed number they lie between `-2 ^ 31` and `2 ^ 31`.
  generalize (BitVec.ofInt 32 checksum <<< 5) ||| (BitVec.ofInt 32 checksum >>> 27) = bits
  have hlow := bits.le_toInt
  have hhigh := bits.toInt_lt
  have hbyte := byte.toNat_lt
  omega

/-- On any bytes the handler computes the checksum of the C library, and every number that its loop
holds on the way lies between `-2 ^ 53` and `2 ^ 53`, where JavaScript adds exactly. -/
theorem checksums_agree (data : List UInt8) :
    (∀ k, -2 ^ 53 < (data.take k).foldl checksumStep 0 ∧
        (data.take k).foldl checksumStep 0 < 2 ^ 53) ∧
      calculateChecksum data = (Protocol.calculateChecksum data).toNat := by
  refine ⟨fun k => ?_, calculateChecksum_eq data⟩
  rcases List.eq_nil_or_concat (data.take k) with hnil | ⟨before, byte, hconcat⟩
  · rw [hnil]
    decide
  · -- The number was left by the turn of the last byte.
    rw [hconcat, List.concat_eq_append, List.foldl_concat]
    exact checksumStep_exact _ byte

/-! ## Calls -/

section Call

variable {α β : Type} {handler handler' : ProtocolHandler}

/-- Returning a value leaves the handler. -/
theorem call_pure (a : α) : (pure a : HandlerM α).call handler = (.ok a, handler) := rfl

/-- The handler that is read is the current one. -/
theorem call_get : (get : HandlerM ProtocolHandler).call handler = (.ok handler, handler) := rfl

/-- `nextSequence` returns the counter and advances it. -/
theorem call_nextSequence :
    nextSequence.call handler =
      (.ok handler.sequence, { handler with sequence := handler.sequence + 1 }) := rfl

/-- What follows a method that returns goes on with its result, on the handler that it leaves. -/
theorem call_bind {method : HandlerM α} {a : α} (next : α → HandlerM β)
    (h : method.call handler = (.ok a, handler')) :
    (method >>= next).call handler = (next a).call handler' := by
  unfold HandlerM.call at h ⊢
  simp only [ExceptT.run_bind, StateT.run_bind, Id.run_bind, h]

/-- A value that fits replaces the bytes that were in its place. -/
theorem call_writeUIntLE (handler : ProtocolHandler) (before old after : List UInt8)
    {value offset width : ℕ} (hoffset : before.length = offset) (hwidth : old.length = width)
    (hvalue : value < 256 ^ width) :
    (writeUIntLE (before ++ old ++ after) value offset width).call handler =
      (.ok (before ++ encode .little width value ++ after), handler) := by
  subst hoffset hwidth
  have hfits : ¬ (256 ^ old.length ≤ value ∨
      (before ++ old ++ after).length < before.length + old.length) := by
    simp only [List.length_append]
    omega
  have htake : (before ++ old ++ after).take before.length = before := by
    rw [List.append_assoc, List.take_left]
  have hdrop : (before ++ old ++ after).drop (before.length + old.length) = after := by
    rw [← List.length_append, List.drop_left]
  rw [writeUIntLE, if_neg hfits, call_pure, htake, hdrop]

/-- A value that fits replaces the zeros that were in its place. -/
theorem call_writeUIntLE_zeros (handler : ProtocolHandler) (before : List UInt8) (k : ℕ)
    {value offset width : ℕ} (hoffset : before.length = offset) (hvalue : value < 256 ^ width) :
    (writeUIntLE (before ++ List.replicate (width + k) 0) value offset width).call handler =
      (.ok (before ++ encode .little width value ++ List.replicate k 0), handler) := by
  rw [List.replicate_add, ← List.append_assoc]
  exact call_writeUIntLE handler before _ _ hoffset List.length_replicate hvalue

/-- A number is read where it lies. -/
theorem call_readUIntLE (handler : ProtocolHandler) {buffer : List UInt8} {offset width : ℕ}
    (hbuffer : offset + width ≤ buffer.length) :
    (readUIntLE buffer offset width).call handler =
      (.ok (readAt .little buffer offset width), handler) := by
  rw [readUIntLE, if_neg (by omega), call_pure]

end Call

/-! ## Messages that the handler builds -/

section Create

variable {handler : ProtocolHandler} {type flags : ℕ} {payload : List UInt8}

/-- `createHeader` writes the six fields one behind the other, with a zero for the checksum. -/
theorem call_createHeader {payloadLength : ℕ} (hversion : handler.version < 256)
    (htype : type < 256) (hflags : flags < 256 ^ 2) (hsequence : handler.sequence < 256 ^ 4)
    (hlength : payloadLength < 256 ^ 4) :
    (createHeader type payloadLength flags).call handler =
      (.ok (encode .little 1 handler.version ++ encode .little 1 type ++ encode .little 2 flags ++
          encode .little 4 handler.sequence ++ encode .little 4 payloadLength ++
          encode .little 4 0),
        { handler with sequence := handler.sequence + 1 }) := by
  unfold createHeader
  -- The sixteen zeros are overwritten from the left, field by field.
  refine (call_bind _ call_get).trans ?_
  refine (call_bind _ (call_writeUIntLE_zeros handler [] 15 rfl hversion)).trans ?_
  refine (call_bind _ (call_writeUIntLE_zeros handler _ 14 rfl htype)).trans ?_
  refine (call_bind _ (call_writeUIntLE_zeros handler _ 12 rfl hflags)).trans ?_
  refine (call_bind _ call_nextSequence).trans ?_
  refine (call_bind _ (call_writeUIntLE_zeros _ _ 8 rfl hsequence)).trans ?_
  refine (call_bind _ (call_writeUIntLE_zeros _ _ 4 rfl hlength)).trans ?_
  refine (call_writeUIntLE_zeros _ _ 0 rfl (by decide)).trans ?_
  rw [List.replicate_zero, List.append_nil, List.nil_append]

/-- `createMessage` writes the checksum of the payload over the zero, and the payload behind. -/
theorem call_createMessage (hversion : handler.version < 256) (htype : type < 256)
    (hflags : flags < 256 ^ 2) (hsequence : handler.sequence < 256 ^ 4)
    (hlength : payload.length < 256 ^ 4) :
    (createMessage type payload flags).call handler =
      (.ok (encode .little 1 handler.version ++ encode .little 1 type ++ encode .little 2 flags ++
          encode .little 4 handler.sequence ++ encode .little 4 payload.length ++
          encode .little 4 (calculateChecksum payload) ++ payload),
        { handler with sequence := handler.sequence + 1 }) := by
  have hchecksum : calculateChecksum payload < 256 ^ 4 := BitVec.isLt _
  unfold createMessage
  refine (call_bind _ (call_createHeader hversion htype hflags hsequence hlength)).trans ?_
  have hwrite := call_writeUIntLE { handler with sequence := handler.sequence + 1 }
    (encode .little 1 handler.version ++ encode .little 1 type ++ encode .little 2 flags ++
      encode .little 4 handler.sequence ++ encode .little 4 payload.length)
    (encode .little 4 0) [] rfl rfl hchecksum
  rw [List.append_nil, List.append_nil] at hwrite
  exact (call_bind _ hwrite).trans (call_pure _)

end Create

/-- A handler of version 1 builds the packet that the C library would send with the handler's
sequence number. -/
theorem createMessage_eq_messagePacket {handler : ProtocolHandler}
    {ctx : Protocol.ProtocolContextInternal} (hversion : handler.version = 1)
    (hsequence : handler.sequence = ctx.base.nextSequence.toNat) (type : MessageType)
    {payload : List UInt8} (hlength : payload.length < 2 ^ 32) (flags : UInt16) :
    (createMessage type.code.toNat payload flags.toNat).call handler =
      (.ok (messagePacket .little ctx type payload flags),
        { handler with sequence := handler.sequence + 1 }) := by
  have hsequence' : handler.sequence < 256 ^ 4 := hsequence ▸ ctx.base.nextSequence.toNat_lt
  have hlength' : (UInt32.ofNat payload.length).toNat = payload.length :=
    UInt32.toNat_ofNat_of_lt hlength
  rw [call_createMessage (by rw [hversion]; decide) type.code.toNat_lt flags.toNat_lt hsequence'
    hlength]
  simp only [messagePacket, MessageHeader.write, hversion, hsequence, hlength',
    calculateChecksum_eq, List.append_assoc]
  rfl

/-! ## Messages that the handler takes in -/

/-- The header of the C library as `validateHeader` returns it. -/
def Header.ofMessageHeader (header : MessageHeader) : Header where
  version := header.version.toNat
  type := header.type.toNat
  flags := header.flags.toNat
  sequence := header.sequence.toNat
  payloadLength := header.payloadLength.toNat
  checksum := header.checksum.toNat

/-- `validateHeader` reads a header of the handler's version as it was written. -/
theorem call_validateHeader {handler : ProtocolHandler} {header : MessageHeader}
    (hversion : header.version.toNat = handler.version)
    (hsize : header.payloadLength.toNat ≤ maxPayloadSize) :
    (validateHeader (header.write .little)).call handler =
      (.ok (Header.ofMessageHeader header), handler) := by
  have hlength : (header.write .little).length = headerSize := MessageHeader.length_write _ _
  obtain ⟨hv, ht, hf, hs, hp, hc⟩ := header.readAt_write .little []
  rw [List.append_nil] at hv ht hf hs hp hc
  have hread : ∀ offset width, offset + width ≤ headerSize →
      (readUIntLE (header.write .little) offset width).call handler =
        (.ok (readAt .little (header.write .little) offset width), handler) :=
    fun offset width h => call_readUIntLE handler (hlength ▸ h)
  -- The tests pass one after the other, and the four other fields are read.
  unfold validateHeader
  simp only [hlength, ne_eq, not_true_eq_false, if_false]
  refine (call_bind _ (hread 0 1 (by decide))).trans ?_
  refine (call_bind _ call_get).trans ?_
  simp only [hv, hversion, not_true_eq_false, if_false]
  refine (call_bind _ (hread 8 4 (by decide))).trans ?_
  simp only [hp, not_lt.2 hsize, if_false]
  refine (call_bind _ (hread 1 1 (by decide))).trans ?_
  refine (call_bind _ (hread 2 2 (by decide))).trans ?_
  refine (call_bind _ (hread 4 4 (by decide))).trans ?_
  refine (call_bind _ (hread 12 4 (by decide))).trans ?_
  rw [call_pure, ht, hf, hs, hc, ← hversion]
  rfl

/-- A packet of the C library passes the tests of `processMessage` on a handler of version 1. -/
theorem checkMessage_messagePacket {handler : ProtocolHandler}
    {ctx : Protocol.ProtocolContextInternal} (hversion : handler.version = 1) (type : MessageType)
    {payload : List UInt8} (hsize : payload.length ≤ maxPayloadSize) (flags : UInt16) :
    ∃ header : Header,
      header.type = type.code.toNat ∧ header.flags = flags.toNat ∧
        header.sequence = ctx.base.nextSequence.toNat ∧
        (checkMessage (messagePacket .little ctx type payload flags)).call handler =
          (.ok (header, payload), handler) := by
  have hlength : (UInt32.ofNat payload.length).toNat = payload.length :=
    UInt32.toNat_ofNat_of_lt (lt_of_le_of_lt hsize (by decide))
  -- The tests of `processMessage` in turn, each on the fields that the C library has written.
  unfold messagePacket
  generalize hheader : (MessageHeader.mk protocolVersion type.code flags ctx.base.nextSequence
    (UInt32.ofNat payload.length) (Protocol.calculateChecksum payload)) = header
  have htake : (header.write .little ++ payload).take headerSize = header.write .little :=
    List.take_left' (MessageHeader.length_write _ _)
  have hdrop : (header.write .little ++ payload).drop headerSize = payload :=
    List.drop_left' (MessageHeader.length_write _ _)
  have hlong : ¬ (header.write .little ++ payload).length < headerSize := by
    simp [headerSize, Protocol.headerSize]
  refine ⟨Header.ofMessageHeader header, by rw [← hheader]; rfl, by rw [← hheader]; rfl,
    by rw [← hheader]; rfl, ?_⟩
  have hvalid : (validateHeader (header.write .little)).call handler =
      (.ok (Header.ofMessageHeader header), handler) :=
    call_validateHeader (by rw [← hheader, hversion]; rfl) (by rw [← hheader]; rwa [hlength])
  have hpayload : payload.length = (Header.ofMessageHeader header).payloadLength := by
    rw [← hheader]
    exact hlength.symm
  have hchecksum : calculateChecksum payload = (Header.ofMessageHeader header).checksum := by
    rw [← hheader, calculateChecksum_eq]
    rfl
  unfold checkMessage
  simp only [hlong, if_false, htake, hdrop]
  refine (call_bind _ hvalid).trans ?_
  simp only [hpayload, hchecksum, ne_eq, not_true_eq_false, if_false]
  rfl

/-! ## Both directions -/

/-- Each side takes in what the other one builds, for a type, a payload of up to 4080 bytes, flags
and a sequence number, exactly when there is a payload and the type is not that of a response: a
handler of version 1 accepts whatever the C library on a little-endian host hands to `net_send`,
and the C library accepts what the handler builds but for these. -/
theorem interoperate_iff (handler : ProtocolHandler) (receiver : Protocol.ProtocolContextInternal)
    (type : MessageType) (payload : List UInt8) (flags : UInt16) (hversion : handler.version = 1)
    (hsequence : handler.sequence < 2 ^ 32) (hpayload : payload.length ≤ 4080) :
    ((∃ message, ((createMessage type.code.toNat payload flags.toNat).call handler).1 =
          .ok message ∧ (Protocol.process .little receiver (some message)).ret = true) ∧
        ∀ host sender packet,
          Protocol.Event.packet packet ∈
            (Protocol.send .little host sender type (some payload) flags).events →
          ∃ header, ((checkMessage packet).call handler).1 = .ok (header, payload)) ↔
      payload ≠ [] ∧ type ≠ .response := by
  -- A context of the C library that is about to send the handler's sequence number.
  obtain ⟨ctx, hctx⟩ : ∃ ctx : Protocol.ProtocolContextInternal,
      handler.sequence = ctx.base.nextSequence.toNat :=
    ⟨{ receiver with base := { receiver.base with nextSequence := .ofNat handler.sequence } },
      (UInt32.toNat_ofNat_of_lt hsequence).symm⟩
  have hlength : payload.length < 2 ^ 32 := by omega
  rw [createMessage_eq_messagePacket hversion hctx type hlength flags]
  constructor
  · rintro ⟨⟨message, hmessage, hret⟩, -⟩
    cases hmessage
    obtain ⟨other, haccepted⟩ := (Protocol.process_ret_iff receiver).1 hret
    constructor
    · have hnonempty := haccepted.nonempty
      rwa [Protocol.drop_messagePacket] at hnonempty
    · rintro rfl
      exact Protocol.not_accepted_response other haccepted
  · rintro ⟨hnonempty, htype⟩
    refine ⟨⟨_, rfl, ?_⟩, fun host sender packet hsent => ?_⟩
    · exact (Protocol.process_ret_iff receiver).2
        ⟨type, Protocol.accepted_messagePacket hnonempty htype⟩
    · obtain ⟨rfl, -, -⟩ := Protocol.packet_of_send hsent
      have hsize : payload.length ≤ maxPayloadSize := le_trans hpayload (by decide)
      obtain ⟨header, -, -, -, hcheck⟩ := checkMessage_messagePacket hversion type hsize flags
      exact ⟨header, by rw [hcheck]⟩

/-- A new handler. -/
def newHandler : ProtocolHandler := ⟨1, 1, false, false, none, [], []⟩

/-- A command of two bytes that a new handler builds is accepted by a wired session. -/
theorem command_interoperates :
    ∃ message, ((createMessage MessageType.command.code.toNat [1, 2] (8 : UInt16).toNat).call
      newHandler).1 = .ok message ∧
      (Protocol.process .little Protocol.wiredSession (some message)).ret = true :=
  ((interoperate_iff newHandler Protocol.wiredSession .command [1, 2] 8 rfl (by decide)
    (by decide)).2 ⟨by decide, by decide⟩).1

/-- The handshake that the Node client sends to connect has no payload, and is refused. -/
theorem empty_handshake_refused :
    ∃ message, ((createMessage 0x01 [] flagReliable).call newHandler).1 = .ok message ∧
      (Protocol.process .little Protocol.wiredSession (some message)).ret = false :=
  ⟨_, rfl, by decide⟩

end LibPolyCall.Node
