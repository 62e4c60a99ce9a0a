import LibPolyCall.Library.Scan
import LibPolyCall.Protocol.Sequence

/-!
# The texts that callbacks are given

`on_auth_request` and `on_error` are given a pointer to the payload and no length, so a callback can
only read it as a C string: up to the first zero byte, wherever that is. Such a reader stays inside
the message exactly when the payload has a zero byte (`staysInside_iff`). Nothing sees to that:
`polycall_protocol_process` does not look for one, and `polycall_protocol_authenticate` sends the
bytes of the credentials and no terminator (`textsInside_iff`).
-/

namespace LibPolyCall.Protocol

open Bytes
open Scan (before nul before_append_of_mem before_eq_self notMem_before)

/-- The number of bytes that a reader of a C string looks at: those before the first zero byte, and
this byte. -/
def charsRead (memory : List UInt8) : ℕ := (before nul memory).length + 1

/-- A reader of the C string at a text stays inside the text, whatever lies behind it in memory. -/
def StaysInside (text : List UInt8) : Prop :=
  ∀ behind, charsRead (text ++ behind) ≤ text.length

/-- A reader stays inside a text that has a zero byte, and leaves any other. -/
theorem staysInside_iff {text : List UInt8} : StaysInside text ↔ nul ∈ text := by
  constructor
  · intro h
    by_contra hnul
    have hread := h []
    rw [List.append_nil, charsRead, before_eq_self hnul] at hread
    omega
  · intro hnul behind
    rw [charsRead, before_append_of_mem hnul]
    have hprefix : before nul text <+: text := List.takeWhile_prefix _
    -- What comes before the zero byte is not the whole text, which has it.
    have hne : (before nul text).length ≠ text.length := by
      intro hlength
      have hall := hprefix.eq_of_length hlength
      exact notMem_before nul text (hall.symm ▸ hnul)
    have hle := hprefix.length_le
    omega

/-- The text that an event hands to a callback without its length. -/
def Event.text? : Event → Option (List UInt8)
  | .onAuthRequest _ credentials => some credentials
  | .onError _ error => some error
  | _ => none

/-- A reader of any text that the events hand to a callback without its length stays inside it. -/
def TextsInside (events : List Event) : Prop :=
  ∀ event ∈ events, ∀ text, event.text? = some text → StaysInside text

/-- The callbacks get the payload of a message of this type without its length. -/
def HandsText (callbacks : Callbacks) : MessageType → Prop
  | .auth => callbacks.onAuthRequest ≠ 0
  | .error => callbacks.onError ≠ 0
  | _ => False

/-- A message that is dispatched hands its payload to a callback without its length, or no text at
all. -/
theorem textsInside_dispatch (callbacks : Callbacks) (payload : List UInt8) (type : MessageType) :
    TextsInside (dispatch callbacks payload type) ↔
      (HandsText callbacks type → nul ∈ payload) := by
  have hquiet : ∀ (function : Ptr) (event : Event), event.text? = none →
      TextsInside (callback function event) := by
    intro function event hnone event' hmem text htext
    unfold callback at hmem
    split_ifs at hmem
    · cases hmem
    · obtain rfl := List.mem_singleton.1 hmem
      rw [hnone] at htext
      cases htext
  have hspeaks : ∀ (function : Ptr) (event : Event), event.text? = some payload →
      (TextsInside (callback function event) ↔ (function ≠ 0 → nul ∈ payload)) := by
    intro function event hsome
    unfold callback
    by_cases hnull : function = 0
    · rw [if_pos hnull]
      exact iff_of_true (fun _ h => nomatch h) fun h => absurd hnull h
    · rw [if_neg hnull, imp_iff_right hnull, ← staysInside_iff]
      unfold TextsInside
      rw [List.forall_mem_singleton, hsome]
      exact ⟨fun h => h payload rfl, fun h text htext => Option.some_inj.1 htext ▸ h⟩
  cases type with
  | auth => exact hspeaks callbacks.onAuthRequest _ rfl
  | error => exact hspeaks callbacks.onError _ rfl
  | handshake => exact iff_of_true (hquiet _ _ rfl) fun h => absurd h id
  | command => exact iff_of_true (hquiet _ _ rfl) fun h => absurd h id
  | response | heartbeat => exact iff_of_true (fun _ h => nomatch h) fun h => absurd h id

/-- A received message hands over a text that ends inside it exactly when it is not accepted, hands
over no text, or has a zero byte in its payload. -/
theorem textsInside_process (o : ByteOrder) (ctx : ProtocolContextInternal) (data : List UInt8) :
    TextsInside (process o ctx (some data)).events ↔
      ∀ type, Accepted o data type → HandsText ctx.callbacks type →
        nul ∈ data.drop headerSize := by
  rcases process_cases ctx o data with ⟨type, haccepted, heq⟩ | ⟨hno, texts, heq⟩
  · rw [heq, textsInside_dispatch]
    constructor
    · intro h type' haccepted' hhands
      rw [haccepted'.unique haccepted] at hhands
      exact h hhands
    · exact fun h hhands => h type haccepted hhands
  · rw [heq]
    refine iff_of_true (fun event hmem text htext => ?_) fun type h => absurd h (hno type)
    obtain ⟨_, -, rfl⟩ := List.mem_map.1 hmem
    cases htext

/-- What `polycall_protocol_send` hands to `net_send`. -/
theorem send_packets (o : ByteOrder) (host : Host) (ctx : ProtocolContextInternal)
    (type : MessageType) (payload : List UInt8) (flags : UInt16) :
    packets (send o host ctx type (some payload) flags).events =
      if ctx.base.endpoint ≠ 0 ∧ payload ≠ [] ∧ headerSize + payload.length ≤ protocolBufferSize
      then [messagePacket o ctx type payload flags] else [] := by
  have hempty : payload.length = 0 ↔ payload = [] := List.length_eq_zero_iff
  simp only [send]
  by_cases hrefused : ctx.base.endpoint = 0 ∨ payload.length = 0
  · have hnot : ¬(ctx.base.endpoint ≠ 0 ∧ payload ≠ [] ∧
        headerSize + payload.length ≤ protocolBufferSize) := by
      rw [hempty] at hrefused
      tauto
    rw [if_pos hrefused, if_neg hnot]
    rfl
  · rw [if_neg hrefused]
    rw [not_or, hempty] at hrefused
    by_cases hlarge : protocolBufferSize < headerSize + payload.length
    · rw [if_pos hlarge, if_neg fun h => absurd h.2.2 (Nat.not_le.2 hlarge)]
      rfl
    · rw [if_neg hlarge, if_pos ⟨hrefused.1, hrefused.2, Nat.not_lt.1 hlarge⟩]
      rfl

/-- What `polycall_protocol_authenticate` hands to `net_send`: the credentials, and nothing behind
them. -/
theorem authenticate_packets (o : ByteOrder) (host : Host) (ctx : ProtocolContextInternal)
    (credentials : List UInt8) :
    packets (authenticate o host ctx (some credentials)).events =
      if ctx.base.endpoint ≠ 0 ∧ credentials ≠ [] ∧
        headerSize + credentials.length ≤ protocolBufferSize
      then [messagePacket o ctx .auth credentials (flagEncrypted ||| flagReliable)] else [] := by
  rw [← send_packets o host]
  simp only [authenticate]
  split_ifs with hempty
  · simp only [send, hempty, or_true, if_true]
  · simp only [sendThenTransition]
    split_ifs
    · rfl
    · rw [packets_append, (transition_sequence host _ .ready).2.2, List.append_nil]

/-- A callback that reads the text of a received message as a C string stays inside the message
exactly when the message is not accepted, or no callback gets its text, or its payload has a zero
byte. Whoever receives the message of `polycall_protocol_authenticate` stays inside it exactly when
it is not sent, or its credentials have a zero byte. -/
theorem textsInside_iff (o : ByteOrder) :
    (∀ (ctx : ProtocolContextInternal) (data : List UInt8),
      TextsInside (process o ctx (some data)).events ↔
        ∀ type, Accepted o data type → HandsText ctx.callbacks type →
          nul ∈ data.drop headerSize) ∧
    ∀ (host : Host) (ctx : ProtocolContextInternal) (credentials : List UInt8),
      (∀ packet ∈ packets (authenticate o host ctx (some credentials)).events,
        ∀ receiver, TextsInside (process o receiver (some packet)).events) ↔
          (ctx.base.endpoint ≠ 0 → credentials ≠ [] →
            headerSize + credentials.length ≤ protocolBufferSize → nul ∈ credentials) := by
  refine ⟨textsInside_process o, fun host ctx credentials => ?_⟩
  rw [authenticate_packets]
  by_cases hsent : ctx.base.endpoint ≠ 0 ∧ credentials ≠ [] ∧
      headerSize + credentials.length ≤ protocolBufferSize
  · obtain ⟨hendpoint, hne, hfits⟩ := hsent
    have haccepted : Accepted o
        (messagePacket o ctx .auth credentials (flagEncrypted ||| flagReliable)) .auth :=
      accepted_messagePacket hne (by decide)
    rw [if_pos ⟨hendpoint, hne, hfits⟩, List.forall_mem_singleton, imp_iff_right hendpoint,
      imp_iff_right hne, imp_iff_right hfits]
    simp only [textsInside_process, drop_messagePacket]
    have hhands : HandsText wiredSession.callbacks .auth :=
      show wiredSession.callbacks.onAuthRequest ≠ 0 by decide
    exact ⟨fun h => h wiredSession .auth haccepted hhands, fun h _ _ _ _ => h⟩
  · rw [if_neg hsent]
    exact iff_of_true (fun _ h => nomatch h) fun hendpoint hne hfits =>
      absurd ⟨hendpoint, hne, hfits⟩ hsent

/-- Credentials of one byte, sent by one wired session to another. -/
theorem credentials_not_terminated :
    packets (authenticate .little openHost wiredSession (some [1])).events =
        [messagePacket .little wiredSession .auth [1] 9] ∧
      ¬TextsInside (process .little wiredSession
        (some (messagePacket .little wiredSession .auth [1] 9))).events := by
  refine ⟨authenticate_packets .little openHost wiredSession [1], fun h => ?_⟩
  have hhands : HandsText wiredSession.callbacks .auth :=
    show wiredSession.callbacks.onAuthRequest ≠ 0 by decide
  have hzero := (textsInside_process .little wiredSession _).1 h .auth
    (accepted_messagePacket (by decide) (by decide)) hhands
  rw [drop_messagePacket] at hzero
  exact absurd hzero (by decide)

end LibPolyCall.Protocol
