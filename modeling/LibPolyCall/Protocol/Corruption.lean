import LibPolyCall.Protocol.Wiring

/-!
# Messages with a changed byte

A payload with one byte changed has another checksum, because each step of the checksum is injective
in its accumulator and in its byte (`Checksum.rotateAdd_ne`). The header of the message is what it
was, so `polycall_protocol_process` finds that the two do not belong together, and refuses the
message (`one_byte_changed_refused`).
-/

namespace LibPolyCall.Protocol

open Bytes Checksum

/-- Payloads that differ in one byte have different checksums. -/
theorem calculateChecksum_ne {p q : List UInt8} (h : OneChanged p q) :
    calculateChecksum p ≠ calculateChecksum q := by
  obtain ⟨k, hk, -⟩ := h.exists_set
  have hp : p.length ≠ 0 := by omega
  have hq : q.length ≠ 0 := by
    rw [h.length_eq]
    exact hp
  rw [calculateChecksum, calculateChecksum, if_neg hp, if_neg hq]
  exact rotateAdd_ne (by decide) (by decide) h

/-- The header of a message does not depend on its payload. -/
theorem read_append (o : ByteOrder) {head : List UInt8} (hhead : head.length = headerSize)
    (payload : List UInt8) :
    MessageHeader.read o (head ++ payload) = MessageHeader.read o head := by
  have hsize : headerSize = 16 := rfl
  have hread : ∀ offset w, offset + w ≤ 16 →
      readAt o (head ++ payload) offset w = readAt o head offset w := fun offset w hw =>
    readAt_append_left o payload (by omega)
  unfold MessageHeader.read
  rw [hread 0 1 (by omega), hread 1 1 (by omega), hread 2 2 (by omega), hread 4 4 (by omega),
    hread 8 4 (by omega), hread 12 4 (by omega)]

/-- What follows the header of a message is its payload. -/
theorem drop_headerSize {head : List UInt8} (hhead : head.length = headerSize)
    (payload : List UInt8) : (head ++ payload).drop headerSize = payload := by
  rw [← hhead, List.drop_left]

/-- The checksum in the header of an accepted message is that of its payload. -/
theorem Accepted.checksum_eq {o : ByteOrder} {head payload : List UInt8} {type : MessageType}
    (hhead : head.length = headerSize) (h : Accepted o (head ++ payload) type) :
    calculateChecksum payload = (MessageHeader.read o head).checksum := by
  have hchecksum := h.checksum
  rwa [drop_headerSize hhead, read_append o hhead] at hchecksum

/-- Payloads of one length that differ in exactly one byte have different checksums. So where a
message with one of them is accepted, the message with the other under the same header is refused:
no callback is called, and the context stays as it is. -/
theorem one_byte_changed_refused {p q : List UInt8} (h : OneChanged p q) :
    calculateChecksum p ≠ calculateChecksum q ∧
      ∀ (o : ByteOrder) (ctx ctx' : ProtocolContextInternal) (head : List UInt8),
        head.length = headerSize → (process o ctx (some (head ++ p))).ret = true →
          ∃ texts : List String,
            process o ctx' (some (head ++ q)) = ⟨false, ctx', texts.map .errorText⟩ := by
  have hne := calculateChecksum_ne h
  refine ⟨hne, fun o ctx ctx' head hhead hret => ?_⟩
  obtain ⟨type, haccepted⟩ := (process_ret_iff ctx).1 hret
  refine process_of_not_accepted ctx' fun type' haccepted' => hne ?_
  rw [haccepted.checksum_eq hhead, haccepted'.checksum_eq hhead]

/-- One letter of two changed, in a command that is accepted. -/
theorem one_byte_changed_refused_command :
    calculateChecksum [79, 75] ≠ calculateChecksum [79, 78] ∧
      ∃ texts : List String,
        process .little wiredSession
            (some ([1, 3, 8, 0, 1, 0, 0, 0, 2, 0, 0, 0, 43, 10, 0, 0] ++ [79, 78])) =
          ⟨false, wiredSession, texts.map .errorText⟩ :=
  have hrefused := @one_byte_changed_refused [79, 75] [79, 78]
    ⟨rfl, 1, by decide, fun i hi => by
      rcases i with _ | _ | i
      · rfl
      · exact absurd rfl hi
      · rfl⟩
  ⟨hrefused.1, hrefused.2 .little wiredSession wiredSession _ rfl (by decide)⟩

end LibPolyCall.Protocol
