import LibPolyCall.Protocol.Session

/-!
# What `polycall_protocol_process` accepts

`Accepted` collects the tests that received data passes before it is dispatched. An accepted
message runs the callback of its type, once and on the payload (`process_of_accepted`); anything
else leaves no trace but a text in the error buffer (`process_of_not_accepted`). The state of the
session is no part of either.
-/

namespace LibPolyCall.Protocol

open Bytes

/-- The data is a message of this type that `polycall_protocol_process` accepts. -/
structure Accepted (o : ByteOrder) (data : List UInt8) (type : MessageType) : Prop where
  complete : headerSize ≤ data.length
  version : (MessageHeader.read o data).version = protocolVersion
  code : (MessageHeader.read o data).type = type.code
  /-- `verify_checksum` takes an empty payload for a missing one. -/
  nonempty : data.drop headerSize ≠ []
  checksum : calculateChecksum (data.drop headerSize) = (MessageHeader.read o data).checksum
  /-- The switch has no case for a response. -/
  handled : type ≠ .response

/-- The switch of `polycall_protocol_process`: the callback of a message type, on a payload. -/
def dispatch (callbacks : Callbacks) (payload : List UInt8) : MessageType → List Event
  | .handshake => callback callbacks.onHandshake (.onHandshake callbacks.onHandshake)
  | .auth => callback callbacks.onAuthRequest (.onAuthRequest callbacks.onAuthRequest payload)
  | .command =>
    callback callbacks.onCommand (.onCommand callbacks.onCommand payload payload.length)
  | .response => []
  | .error => callback callbacks.onError (.onError callbacks.onError payload)
  | .heartbeat => []

/-- A value on the wire belongs to one message type. -/
theorem MessageType.code_inj {a b : MessageType} (h : a.code = b.code) : a = b := by
  have hcode := congrArg MessageType.ofCode? h
  rw [MessageType.ofCode?_code, MessageType.ofCode?_code] at hcode
  exact Option.some.inj hcode

/-- The type that a value on the wire stands for has that value. -/
theorem MessageType.code_of_ofCode? {code : UInt8} {type : MessageType}
    (h : MessageType.ofCode? code = some type) : type.code = code := by
  simpa using List.find?_some h

/-- A header passes `validate_message_header` when it has the version and a type on the wire. -/
theorem validateMessageHeader_of_type {header : MessageHeader} {type : MessageType}
    (hversion : header.version = protocolVersion) (htype : header.type = type.code) :
    validateMessageHeader header = .ok () := by
  simp only [validateMessageHeader, hversion, htype, ne_eq, not_true_eq_false, if_false]
  cases type <;> rfl

/-- A header that passes `validate_message_header` has the version. -/
theorem version_of_validateMessageHeader {header : MessageHeader}
    (h : validateMessageHeader header = .ok ()) : header.version = protocolVersion := by
  by_contra hversion
  simp [validateMessageHeader, hversion] at h

section Process

variable {o : ByteOrder} (ctx : ProtocolContextInternal) {data : List UInt8} {type : MessageType}

/-- Data is accepted as a message of one type. -/
theorem Accepted.unique {other : MessageType} (h : Accepted o data type)
    (h' : Accepted o data other) : type = other :=
  MessageType.code_inj (h.code.symm.trans h'.code)

/-- An accepted message is dispatched. -/
theorem process_of_accepted (h : Accepted o data type) :
    process o ctx (some data) =
      ⟨true, ctx, dispatch ctx.callbacks (data.drop headerSize) type⟩ := by
  have hlength : ¬ data.length < headerSize := by
    have := h.complete
    omega
  have hvalid := validateMessageHeader_of_type h.version h.code
  have hverify : verifyChecksum (MessageHeader.read o data) (data.drop headerSize) = true := by
    have hne : (data.drop headerSize).length ≠ 0 := fun hzero =>
      h.nonempty (List.length_eq_zero_iff.1 hzero)
    simp only [verifyChecksum, hne, if_false, h.checksum, decide_true]
  simp only [process, hlength, if_false, hvalid, hverify, Bool.not_true, Bool.false_eq_true,
    h.code, MessageType.ofCode?_code]
  cases type with
  | response => exact absurd rfl h.handled
  | _ => rfl

/-- Data that is no accepted message is refused, with at most a text in the error buffer. -/
theorem process_of_not_accepted (h : ∀ type, ¬ Accepted o data type) :
    ∃ texts : List String, process o ctx (some data) = ⟨false, ctx, texts.map .errorText⟩ := by
  by_cases hlength : data.length < headerSize
  · exact ⟨[], by simp only [process, hlength, if_true, List.map_nil]⟩
  cases hvalid : validateMessageHeader (MessageHeader.read o data) with
  | error text =>
    exact ⟨[text], by simp only [process, hlength, if_false, hvalid, List.map_cons, List.map_nil]⟩
  | ok _ =>
    by_cases hverify : verifyChecksum (MessageHeader.read o data) (data.drop headerSize) = true
    · -- What is left passes every test but that of its type.
      have hrefused : ∀ type, MessageType.ofCode? (MessageHeader.read o data).type = some type →
          type = .response := by
        intro type htype
        by_contra hhandled
        have hempty : (data.drop headerSize).length ≠ 0 := fun hzero => by
          simp [verifyChecksum, hzero] at hverify
        simp only [verifyChecksum, hempty, if_false, decide_eq_true_eq] at hverify
        exact h type ⟨by omega, version_of_validateMessageHeader hvalid,
          (MessageType.code_of_ofCode? htype).symm,
          fun hnil => hempty (by rw [hnil, List.length_nil]), hverify, hhandled⟩
      refine ⟨[], ?_⟩
      simp only [process, hlength, if_false, hvalid, hverify, Bool.not_true, Bool.false_eq_true]
      cases htype : MessageType.ofCode? (MessageHeader.read o data).type with
      | none => rfl
      | some type =>
        rw [hrefused type htype]
        rfl
    · refine ⟨["Checksum verification failed"], ?_⟩
      rw [Bool.not_eq_true] at hverify
      simp only [process, hlength, if_false, hvalid, hverify, Bool.not_false, if_true,
        List.map_cons, List.map_nil]

/-- Received data is an accepted message and dispatched, or it is none and refused. -/
theorem process_cases (o : ByteOrder) (data : List UInt8) :
    (∃ type, Accepted o data type ∧ process o ctx (some data) =
        ⟨true, ctx, dispatch ctx.callbacks (data.drop headerSize) type⟩) ∨
      ((∀ type, ¬ Accepted o data type) ∧
        ∃ texts : List String, process o ctx (some data) = ⟨false, ctx, texts.map .errorText⟩) := by
  by_cases haccepted : ∃ type, Accepted o data type
  · obtain ⟨type, h⟩ := haccepted
    exact .inl ⟨type, h, process_of_accepted ctx h⟩
  · rw [not_exists] at haccepted
    exact .inr ⟨haccepted, process_of_not_accepted ctx haccepted⟩

/-- `polycall_protocol_process` returns true exactly on the accepted messages. -/
theorem process_ret_iff :
    (process o ctx (some data)).ret = true ↔ ∃ type, Accepted o data type := by
  rcases process_cases ctx o data with ⟨type, h, heq⟩ | ⟨hno, texts, heq⟩
  · rw [heq]
    exact ⟨fun _ => ⟨type, h⟩, fun _ => rfl⟩
  · rw [heq]
    exact ⟨fun hret => absurd hret Bool.false_ne_true, fun ⟨type, h⟩ => absurd h (hno type)⟩

end Process

end LibPolyCall.Protocol
