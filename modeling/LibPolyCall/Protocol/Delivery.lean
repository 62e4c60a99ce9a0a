import LibPolyCall.Protocol.Wiring

/-!
# Sending and receiving

A packet that `polycall_protocol_send` builds is accepted by `polycall_protocol_process` and
dispatched under its type, with the payload that was sent, for every type but one: the switch has
no case for a response (`round_trip_iff`).

The receiver takes as payload what follows the header, however much that is. The length that the
header declares plays no part in the tests, so a message is accepted under a wrong one whenever it
passes the others (`declared_length_iff`).
-/

namespace LibPolyCall.Protocol

open Bytes CStrings Checksum

section RoundTrip

variable {o : ByteOrder} {host : Host} {sender receiver : ProtocolContextInternal}
  {type : MessageType} {payload packet : List UInt8} {flags : UInt16}

/-- What `polycall_protocol_send` hands to `net_send` is the packet that it builds, of a payload
that is not empty and fits into its buffer. -/
theorem packet_of_send
    (h : Event.packet packet ∈ (send o host sender type (some payload) flags).events) :
    packet = messagePacket o sender type payload flags ∧ payload ≠ [] ∧
      headerSize + payload.length ≤ protocolBufferSize := by
  simp only [send] at h
  split_ifs at h with hempty hfits
  · cases h
  · simp at h
  · rw [not_or] at hempty
    refine ⟨by simpa using h, fun hnil => hempty.2 (by rw [hnil, List.length_nil]), by omega⟩

/-- What follows the header of a packet is its payload. -/
theorem drop_messagePacket :
    (messagePacket o sender type payload flags).drop headerSize = payload := by
  unfold messagePacket
  rw [List.drop_append, List.drop_eq_nil_of_le (by rw [MessageHeader.length_write]),
    MessageHeader.length_write, Nat.sub_self, List.drop_zero, List.nil_append]

/-- The header of a packet is read as it was written. -/
theorem read_messagePacket :
    MessageHeader.read o (messagePacket o sender type payload flags) =
      { version := protocolVersion, type := type.code, flags,
        sequence := sender.base.nextSequence, payloadLength := UInt32.ofNat payload.length,
        checksum := calculateChecksum payload } := by
  unfold messagePacket
  rw [MessageHeader.read_write_append]

/-- A packet with a payload is accepted, unless it is a response. -/
theorem accepted_messagePacket (hpayload : payload ≠ []) (htype : type ≠ .response) :
    Accepted o (messagePacket o sender type payload flags) type where
  complete := by simp [messagePacket]
  version := by rw [read_messagePacket]
  code := by rw [read_messagePacket]
  nonempty := by rwa [drop_messagePacket]
  checksum := by rw [read_messagePacket, drop_messagePacket]
  handled := htype

/-- A response is refused, whatever it carries. -/
theorem not_accepted_response (other : MessageType) :
    ¬ Accepted o (messagePacket o sender .response payload flags) other := by
  intro h
  have hcode := h.code
  rw [read_messagePacket] at hcode
  exact h.handled (MessageType.code_inj hcode).symm

end RoundTrip

/-- A packet that `polycall_protocol_send` hands to `net_send` is accepted by
`polycall_protocol_process`, and dispatched once, under its type and with the payload that was
sent, exactly when it is no response. -/
theorem round_trip_iff (o : ByteOrder) (host : Host) (sender receiver : ProtocolContextInternal)
    (type : MessageType) (payload packet : List UInt8) (flags : UInt16)
    (hsent : Event.packet packet ∈ (send o host sender type (some payload) flags).events) :
    ((process o receiver (some packet)).ret = true ∧
        (process o receiver (some packet)).events = dispatch receiver.callbacks payload type) ↔
      type ≠ .response := by
  obtain ⟨rfl, hpayload, -⟩ := packet_of_send hsent
  constructor
  · rintro ⟨hret, -⟩ rfl
    obtain ⟨other, haccepted⟩ := (process_ret_iff receiver).1 hret
    exact not_accepted_response other haccepted
  · intro htype
    rw [process_of_accepted receiver (accepted_messagePacket hpayload htype), drop_messagePacket]
    exact ⟨rfl, rfl⟩

/-- The command that a wired session sends comes back as it was. -/
theorem command_comes_back :
    (process .little wiredSession
        (some (messagePacket .little wiredSession .command [1, 2] 8))).ret = true ∧
      (process .little wiredSession
          (some (messagePacket .little wiredSession .command [1, 2] 8))).events =
        dispatch wiredSession.callbacks [1, 2] .command :=
  (round_trip_iff .little openHost wiredSession wiredSession .command [1, 2] _ 8
    (List.mem_singleton.2 rfl)).2 (by decide)

/-- A response that is sent is refused. -/
theorem response_refused :
    (send .little openHost wiredSession .response (some [1]) 0).ret = true ∧
      Event.packet (messagePacket .little wiredSession .response [1] 0) ∈
        (send .little openHost wiredSession .response (some [1]) 0).events ∧
      (process .little wiredSession
        (some (messagePacket .little wiredSession .response [1] 0))).ret = false := by
  refine ⟨?_, List.mem_singleton.2 rfl, ?_⟩ <;> decide

/-! ## The declared length -/

/-- The payload that a callback is called with. -/
def Event.payload? : Event → Option (List UInt8)
  | .onAuthRequest _ credentials => some credentials
  | .onCommand _ command _ => some command
  | .onError _ error => some error
  | _ => none

/-- The length of the payload, as the header of the data declares it. -/
def declaredLength (o : ByteOrder) (data : List UInt8) : ℕ :=
  (MessageHeader.read o data).payloadLength.toNat

/-- A message that is dispatched calls callbacks with its payload. -/
theorem payload_of_mem_dispatch {callbacks : Callbacks} {payload : List UInt8}
    {type : MessageType} {event : Event} {received : List UInt8}
    (hmem : event ∈ dispatch callbacks payload type) (hreceived : event.payload? = some received) :
    received = payload := by
  have hcallback : ∀ (f : Ptr) (e : Event), event ∈ callback f e → event = e := by
    intro f e h
    unfold callback at h
    split_ifs at h
    · cases h
    · exact List.mem_singleton.1 h
  cases type with
  | response | heartbeat => cases hmem
  | handshake =>
    rw [hcallback _ _ hmem] at hreceived
    cases hreceived
  | auth | command | error =>
    rw [hcallback _ _ hmem] at hreceived
    exact (Option.some.inj hreceived).symm

/-- Whatever `polycall_protocol_process` accepts, or hands to a callback, is as long as its header
declares, exactly when the data is refused for another reason (it has no payload, another version,
a type without a case, or another checksum) or has that length. -/
theorem declared_length_iff (o : ByteOrder) (ctx : ProtocolContextInternal)
    (data : List UInt8) :
    (((process o ctx (some data)).ret = true →
          declaredLength o data = data.length - headerSize) ∧
        ∀ event ∈ (process o ctx (some data)).events, ∀ payload, event.payload? = some payload →
          payload.length = declaredLength o data) ↔
      (data.length ≤ headerSize ∨ (MessageHeader.read o data).version ≠ protocolVersion ∨
        (∀ type, type ≠ .response → (MessageHeader.read o data).type ≠ MessageType.code type) ∨
        calculateChecksum (data.drop headerSize) ≠ (MessageHeader.read o data).checksum ∨
        declaredLength o data = data.length - headerSize) := by
  constructor
  · rintro ⟨hret, -⟩
    by_contra! hnot
    obtain ⟨hlong, hversion, ⟨type, hhandled, hcode⟩, hchecksum, hlength⟩ := hnot
    have hpayload : data.drop headerSize ≠ [] := by
      rw [ne_eq, List.drop_eq_nil_iff]
      omega
    -- Data with none of these defects is accepted, so its length would be the declared one.
    have haccepted : Accepted o data type :=
      ⟨hlong.le, hversion, hcode, hpayload, hchecksum, hhandled⟩
    exact hlength (hret ((process_ret_iff ctx).2 ⟨type, haccepted⟩))
  · intro hcases
    rcases process_cases ctx o data with ⟨type, h, heq⟩ | ⟨-, texts, heq⟩
    · -- Data that is accepted has no other defect.
      have hlength : declaredLength o data = data.length - headerSize := by
        rcases hcases with hshort | hversion | htype | hchecksum | hlength
        · exact absurd (List.drop_eq_nil_of_le hshort) h.nonempty
        · exact absurd h.version hversion
        · exact absurd h.code (htype type h.handled)
        · exact absurd h.checksum hchecksum
        · exact hlength
      refine ⟨fun _ => hlength, fun event hevent payload hpayload => ?_⟩
      rw [heq] at hevent
      rw [payload_of_mem_dispatch hevent hpayload, List.length_drop, hlength]
    · rw [heq]
      refine ⟨fun hret => absurd hret Bool.false_ne_true, fun event hevent payload hpayload => ?_⟩
      obtain ⟨text, -, rfl⟩ := List.mem_map.1 hevent
      cases hpayload

/-- A message that is cut off after the first byte of its payload is accepted: the checksum of two
zeros is that of one. -/
theorem truncated_command_accepted :
    (process .little wiredSession
        (some ((messagePacket .little wiredSession .command [0, 0] 0).take 17))).ret = true ∧
      declaredLength .little ((messagePacket .little wiredSession .command [0, 0] 0).take 17) = 2 ∧
      (process .little wiredSession
        (some ((messagePacket .little wiredSession .command [0, 0] 0).take 17))).events =
          [.onCommand 3 [0] 1] := by
  refine ⟨?_, ?_, ?_⟩ <;> decide

end LibPolyCall.Protocol
