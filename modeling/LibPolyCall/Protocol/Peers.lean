import LibPolyCall.Library.Exchange
import LibPolyCall.Protocol.Texts

/-!
# Two sessions over a network

Two sessions make calls in any order, and a network hands over what they have sent: in any order,
any number of times, or never. `polycall_protocol_process` changes nothing in the session that it
is called on, so a session is what its own calls make of it, whatever the other one does. What its
callbacks are called with are the messages that the other one has sent, at the places that the
network picks, and nothing else (`heard_as_sent`): over a network that loses, repeats and reorders
nothing these are the messages from the first one on, each once and in order.
-/

namespace LibPolyCall.Protocol

open Bytes Runs

/-! ## What a call sends -/

/-- A message that `polycall_protocol_send` is to send. -/
structure Message where
  type : MessageType
  payload : List UInt8
  flags : UInt16
deriving DecidableEq

/-- The message that a call hands to `polycall_protocol_send`. -/
def asked (o : ByteOrder) (host : Host) (ctx : ProtocolContextInternal) : Call → Option Message
  | .startHandshake =>
    if ctx.base.state = .init then some ⟨.handshake, handshakePayload o host, flagReliable⟩
    else none
  | .update =>
    if ctx.base.state = .init ∧ canTransition ctx .handshake = true then
      some ⟨.handshake, handshakePayload o host, flagReliable⟩
    else none
  | .authenticate (some credentials) =>
    some ⟨.auth, credentials, flagEncrypted ||| flagReliable⟩
  | .send type (some payload) flags => some ⟨type, payload, flags⟩
  | _ => none

/-- The packet of a message, as the session would send it next. -/
def Message.packet (o : ByteOrder) (ctx : ProtocolContextInternal) (message : Message) :
    List UInt8 :=
  messagePacket o ctx message.type message.payload message.flags

/-- `polycall_protocol_send` makes a packet of the message. -/
def Message.Fits (ctx : ProtocolContextInternal) (message : Message) : Prop :=
  ctx.base.endpoint ≠ 0 ∧ message.payload ≠ [] ∧
    headerSize + message.payload.length ≤ protocolBufferSize

/-- Whether a message fits can be decided. -/
instance (ctx : ProtocolContextInternal) (message : Message) : Decidable (message.Fits ctx) :=
  inferInstanceAs (Decidable (_ ∧ _ ∧ _))

/-- What a call sends: the message that it asks for, if there is room for it and `net_send` takes
all of it. -/
def sentMessages (o : ByteOrder) (ctx : ProtocolContextInternal) (call : Host × Call) :
    List Message :=
  ((asked o call.1 ctx call.2).filter fun message =>
    message.Fits ctx ∧ call.1.netSend (message.packet o ctx) = (message.packet o ctx).length).toList

/-- What `net_send` takes of a packet. -/
def taken (host : Host) (packet : List UInt8) : List (List UInt8) :=
  if host.netSend packet ≤ 0 then [] else [packet.take (host.netSend packet).toNat]

/-- What a call puts on the network. -/
def link (o : ByteOrder) (ctx : ProtocolContextInternal) (call : Host × Call) :
    List (List UInt8) :=
  (packets (step o ctx call).2.events).flatMap (taken call.1)

/-- `net_send` takes a packet as a whole, or nothing of it. -/
def TakesWhole (host : Host) : Prop :=
  ∀ packet, host.netSend packet = packet.length ∨ host.netSend packet ≤ 0

section Packets

variable (o : ByteOrder) (host : Host) (ctx : ProtocolContextInternal)

/-- A packet is a header and the payload. -/
theorem Message.length_packet (message : Message) :
    (message.packet o ctx).length = headerSize + message.payload.length := by
  rw [Message.packet, messagePacket, List.length_append, MessageHeader.length_write]

/-- What `polycall_protocol_send` hands to `net_send`. -/
theorem Message.packets_send (message : Message) :
    packets (send o host ctx message.type (some message.payload) message.flags).events =
      ((some message).filter fun m => m.Fits ctx).toList.map (Message.packet o ctx) := by
  rw [send_packets, Option.filter_some]
  simp only [decide_eq_true_eq]
  by_cases hfits : message.Fits ctx
  · exact (if_pos hfits).trans (by rw [if_pos hfits]; rfl)
  · exact (if_neg hfits).trans (by rw [if_neg hfits]; rfl)

/-- What a send and the transition behind it hand to `net_send`. -/
theorem Message.packets_sendThenTransition (message : Message) (target : ProtocolState) :
    packets (sendThenTransition o host ctx message.type message.payload message.flags
        target).events =
      ((some message).filter fun m => m.Fits ctx).toList.map (Message.packet o ctx) := by
  rw [← Message.packets_send]
  simp only [sendThenTransition]
  split
  · rfl
  · rw [packets_append, (transition_sequence host _ target).2.2, List.append_nil]

/-- What `polycall_protocol_start_handshake` hands to `net_send`. -/
theorem startHandshake_packets :
    packets (startHandshake o host ctx).events =
      ((asked o host ctx .startHandshake).filter fun m => m.Fits ctx).toList.map
        (Message.packet o ctx) := by
  unfold startHandshake asked
  by_cases hinit : ctx.base.state = .init
  · rw [if_neg (not_not.2 hinit), if_pos hinit]
    exact Message.packets_sendThenTransition o host ctx
      ⟨.handshake, handshakePayload o host, flagReliable⟩ .handshake
  · rw [if_pos hinit, if_neg hinit]
    rfl

/-- What `polycall_protocol_update` hands to `net_send`. -/
theorem update_packets :
    packets (update o host ctx).events =
      ((asked o host ctx .update).filter fun m => m.Fits ctx).toList.map
        (Message.packet o ctx) := by
  by_cases hstarts : ctx.base.state = .init ∧ canTransition ctx .handshake = true
  · have hasked : asked o host ctx .update = asked o host ctx .startHandshake := by
      rw [asked, asked, if_pos hstarts, if_pos hstarts.1]
    rw [hasked, ← startHandshake_packets]
    simp only [update, hstarts.1, hstarts.2, if_true]
    rfl
  · have hasked : asked o host ctx .update = none := by rw [asked, if_neg hstarts]
    have hnone : packets (update o host ctx).events = [] := by
      simp only [update]
      split
      · next hinit =>
        rw [if_neg fun hcan => hstarts ⟨hinit, hcan⟩]
        rfl
      · split
        · exact (transition_sequence host ctx .auth).2.2
        · rfl
      · split
        · exact (transition_sequence host ctx .ready).2.2
        · rfl
      · rfl
    rw [hasked, hnone]
    rfl

/-- A call hands over the packet of the message that it asks for. -/
theorem step_packets (call : Call) :
    packets (step o ctx (host, call)).2.events =
      ((asked o host ctx call).filter fun m => m.Fits ctx).toList.map (Message.packet o ctx) := by
  cases call with
  | startHandshake => exact startHandshake_packets o host ctx
  | completeHandshake =>
    simp only [step, completeHandshake, Outcome.returned]
    split
    · rfl
    · exact (transition_sequence host ctx .auth).2.2
  | authenticate credentials =>
    cases credentials with
    | none => rfl
    | some credentials =>
      rw [asked, ← Message.packets_send o host]
      simp only [step, Outcome.returned, authenticate_packets, send_packets]
  | update => exact update_packets o host ctx
  | process data => exact process_packets o ctx data
  | setError error =>
    cases error with
    | none => rfl
    | some error => exact (transition_sequence host _ .error).2.2
  | send type payload flags =>
    cases payload with
    | none => rfl
    | some payload => exact Message.packets_send o host ctx ⟨type, payload, flags⟩
  | lockState stateId | unlockState stateId =>
    simp only [step, setMachineLock]
    split <;> rfl

/-- Where `net_send` takes a packet as a whole or not at all, a call puts the packets of the
messages that it sends on the network. -/
theorem link_eq (call : Call) (hwhole : TakesWhole host) :
    link o ctx (host, call) = (sentMessages o ctx (host, call)).map (Message.packet o ctx) := by
  have htaken : ∀ message : Message, taken host (message.packet o ctx) =
      if host.netSend (message.packet o ctx) = (message.packet o ctx).length then
        [message.packet o ctx] else [] := by
    intro message
    have hpositive : 0 < (message.packet o ctx).length := by
      rw [Message.length_packet, headerSize]
      omega
    rcases hwhole (message.packet o ctx) with hall | hnone
    · rw [taken, if_neg (by omega), if_pos hall, hall, Int.toNat_natCast, List.take_length]
    · rw [taken, if_pos hnone, if_neg (by omega)]
  rw [link, step_packets, sentMessages]
  cases asked o host ctx call with
  | none => rfl
  | some message =>
    by_cases hfits : message.Fits ctx
    · simp [Option.filter_some, hfits, htaken]
      split <;> rfl
    · simp [Option.filter_some, hfits]

/-- A message that is received as it was sent calls the callback of its type on its payload. A
response, which the switch has no case for, calls nothing. -/
theorem Message.process_packet (receiver : ProtocolContextInternal) {message : Message}
    (hpayload : message.payload ≠ []) :
    (process o receiver (some (message.packet o ctx))).events =
      dispatch receiver.callbacks message.payload message.type := by
  by_cases htype : message.type = .response
  · have hread : MessageHeader.read o (message.packet o ctx) =
        { version := protocolVersion, type := MessageType.response.code, flags := message.flags,
          sequence := ctx.base.nextSequence,
          payloadLength := UInt32.ofNat message.payload.length,
          checksum := calculateChecksum message.payload } := by
      rw [Message.packet, read_messagePacket, htype]
    have hlong : ¬(message.packet o ctx).length < headerSize := by
      rw [Message.length_packet]
      omega
    have hcode : (MessageHeader.read o (message.packet o ctx)).type =
        MessageType.response.code := by rw [hread]
    have hvalid : validateMessageHeader (MessageHeader.read o (message.packet o ctx)) = .ok () :=
      validateMessageHeader_of_type (by rw [hread]) hcode
    have hdrop : (message.packet o ctx).drop headerSize = message.payload := drop_messagePacket
    have hverify : verifyChecksum (MessageHeader.read o (message.packet o ctx))
        message.payload = true := by
      have hlength : message.payload.length ≠ 0 := fun hzero =>
        hpayload (List.length_eq_zero_iff.1 hzero)
      rw [hread]
      simp only [verifyChecksum, hlength, if_false, decide_true]
    simp only [process, hlong, if_false, hvalid, hdrop, hverify, Bool.not_true,
      Bool.false_eq_true, htype]
    rw [hread]
    rfl
  · rw [Message.packet, process_of_accepted receiver (accepted_messagePacket hpayload htype),
      drop_messagePacket]

end Packets

/-! ## Two sessions -/

/-- Two sessions that call and are called, each the peer of the other. -/
def converse (o : ByteOrder) :
    Exchange Bool ProtocolContextInternal (List UInt8) → Exchange.Event Bool (Host × Call) →
      Exchange Bool ProtocolContextInternal (List UInt8) × Option (List UInt8) :=
  Exchange.next (step o) (link o) (fun ctx packet => (process o ctx (some packet)).ctx) not

/-- The calls of callbacks of the party, and the errors, when it processes what it is handed. -/
def heard (o : ByteOrder) (party : Bool)
    (x : Exchange Bool ProtocolContextInternal (List UInt8))
    (event : Exchange.Event Bool (Host × Call)) : List Event :=
  (Exchange.handed party x event).flatMap fun packet =>
    (process o (x.state party) (some packet)).events

/-- The messages that a call sends, each with its packet. -/
def posted (o : ByteOrder) (ctx : ProtocolContextInternal) (call : Host × Call) :
    List (List UInt8 × Message) :=
  (sentMessages o ctx call).map fun message => (message.packet o ctx, message)

section Converse

variable {o : ByteOrder}

/-- `polycall_protocol_process` leaves the context. -/
theorem process_keeps (o : ByteOrder) (ctx : ProtocolContextInternal) (packet : List UInt8) :
    (process o ctx (some packet)).ctx = ctx :=
  (process_quiet o ctx (some packet)).1

/-- A message that is sent has a payload, and its packet is received as it was sent. -/
theorem process_posted {ctx receiver : ProtocolContextInternal} {call : Host × Call}
    {post : List UInt8 × Message} (hpost : post ∈ posted o ctx call) :
    (process o receiver (some post.1)).events =
      dispatch receiver.callbacks post.2.payload post.2.type := by
  obtain ⟨message, hmessage, rfl⟩ := List.mem_map.1 hpost
  rw [sentMessages, Option.mem_toList, Option.filter_eq_some_iff, decide_eq_true_iff] at hmessage
  exact message.process_packet o ctx receiver hmessage.2.1.2.1

/-- What is processed calls callbacks, whatever else the session is. -/
theorem process_congr {ctx ctx' : ProtocolContextInternal} (h : ctx.callbacks = ctx'.callbacks)
    (data : Option (List UInt8)) : (process o ctx data).events = (process o ctx' data).events := by
  cases data with
  | none => rfl
  | some data =>
    simp only [process, h]
    repeat' split
    all_goals rfl

/-- The parties keep their callbacks. -/
theorem converse_callbacks (x : Exchange Bool ProtocolContextInternal (List UInt8))
    (event : Exchange.Event Bool (Host × Call)) (party : Bool) :
    ((converse o x event).1.state party).callbacks = (x.state party).callbacks := by
  cases event with
  | act other call =>
    by_cases hother : other = party
    · subst hother
      simp [converse, Exchange.next, step_callbacks]
    · simp [converse, Exchange.next, Function.update_of_ne (Ne.symm hother)]
  | deliver other place =>
    rw [converse, Exchange.next_deliver _ _ _ (process_keeps o)]

/-- What a party hears are the messages that its peer sends alone, from the places that the network
picks. -/
theorem outputs_heard (sessions : Bool → ProtocolContextInternal)
    (events : List (Exchange.Event Bool (Host × Call)))
    (hwhole : ∀ party call, .act party call ∈ events → TakesWhole call.1) (party : Bool) :
    (∀ place ∈ outputs (converse o) (Exchange.places party) (.start sessions) events,
        place < (outputs (step o) (sentMessages o) (sessions !party)
          (Exchange.own (!party) events)).length) ∧
      outputs (converse o) (heard o party) (.start sessions) events =
        ((outputs (converse o) (Exchange.places party) (.start sessions) events).filterMap
          ((outputs (step o) (sentMessages o) (sessions !party)
            (Exchange.own (!party) events))[·]?)).flatMap fun message =>
              dispatch (sessions party).callbacks message.payload message.type := by
  -- What is on the network in the end, with the messages.
  set posts := outputs (step o) (posted o) (sessions !party) (Exchange.own (!party) events)
    with hposts
  have hmessages : outputs (step o) (sentMessages o) (sessions !party)
      (Exchange.own (!party) events) = posts.map Prod.snd := by
    simp [hposts, outputs, posted, List.map_flatMap, Function.comp_def]
  have hcalls : ∀ move ∈ moves (step o) (sessions !party) (Exchange.own (!party) events),
      TakesWhole move.2.1 :=
    fun move hmove => hwhole _ _ (Exchange.act_mem_of_mem_own (snd_mem_of_mem_moves hmove))
  have hsent : (final (converse o) (.start sessions) events).sent party = posts.map Prod.fst := by
    have hlink : outputs (step o) (link o) (sessions !party) (Exchange.own (!party) events) =
        posts.map Prod.fst := by
      rw [hposts, outputs, outputs, List.map_flatMap]
      refine List.flatMap_congr fun move hmove => ?_
      rw [link_eq o move.2.1 move.1 move.2.2 (hcalls move hmove), posted, List.map_map]
      rfl
    have hfinal := Exchange.sent_final (step o) (link o) not (process_keeps o)
      Bool.involutive_not.injective (!party) (.start sessions) events
    rw [Bool.not_not] at hfinal
    rw [converse, hfinal, ← hlink]
    rfl
  have hpost : ∀ post ∈ posts, (process o (sessions party) (some post.1)).events =
      dispatch (sessions party).callbacks post.2.payload post.2.type := by
    intro post hmem
    obtain ⟨move, -, hmove⟩ := List.mem_flatMap.1 hmem
    exact process_posted hmove
  -- What is heard depends on the callbacks of the party only, and these stay as they are.
  have hheard : outputs (converse o) (heard o party) (.start sessions) events =
      (outputs (converse o) (Exchange.handed party) (.start sessions) events).flatMap
        fun packet => (process o (sessions party) (some packet)).events := by
    have hcallbacks := (final_of_step
      (P := fun x => (x.state party).callbacks = (sessions party).callbacks)
      (fun x event h => (converse_callbacks (o := o) x event party).trans h) (.start sessions)
      events rfl).1
    rw [outputs, outputs, List.flatMap_assoc]
    refine List.flatMap_congr fun move hmove => ?_
    rw [heard]
    exact List.flatMap_congr fun packet _ => process_congr (hcallbacks move hmove) (some packet)
  obtain ⟨hplaces, hhanded⟩ := Exchange.handed_eq (step o) (link o)
    (fun ctx packet => (process o ctx (some packet)).ctx) not party (.start sessions) events
  rw [← converse, hsent, List.length_map] at hplaces
  rw [← converse, hsent] at hhanded
  rw [hmessages, List.length_map]
  refine ⟨hplaces, ?_⟩
  have hget : ∀ {α : Type} (f : List UInt8 × Message → α) (ns : List ℕ),
      ns.filterMap ((posts.map f)[·]?) = (ns.filterMap (posts[·]?)).map f := by
    intro α f ns
    rw [List.map_filterMap]
    simp only [List.getElem?_map]
  rw [hheard, hhanded, hget Prod.fst, hget Prod.snd, List.flatMap_map, List.flatMap_map]
  refine List.flatMap_congr fun post hmem => hpost post ?_
  obtain ⟨place, -, hplace⟩ := List.mem_filterMap.1 hmem
  exact List.mem_of_getElem? hplace

end Converse

/-- In every run of two sessions over a network that loses, repeats and reorders what was sent, each
session ends in the state that its own calls alone lead to. Each calls its callbacks on the messages
that the other one sends, at the places that the network picks, and on nothing else. When the
network picks the places in order, each once, these are the first messages sent, each once and in
order. -/
theorem heard_as_sent (o : ByteOrder) (sessions : Bool → ProtocolContextInternal)
    (events : List (Exchange.Event Bool (Host × Call)))
    (hwhole : ∀ party call, .act party call ∈ events → TakesWhole call.1) (party : Bool) :
    let places := outputs (converse o) (Exchange.places party) (.start sessions) events
    let messages := outputs (step o) (sentMessages o) (sessions !party)
      (Exchange.own (!party) events)
    let dispatched := fun message : Message =>
      dispatch (sessions party).callbacks message.payload message.type
    (final (converse o) (.start sessions) events).state party =
        final (step o) (sessions party) (Exchange.own party events) ∧
      (∀ place ∈ places, place < messages.length) ∧
      outputs (converse o) (heard o party) (.start sessions) events =
        (places.filterMap (messages[·]?)).flatMap dispatched ∧
      ∀ n, places = List.range n →
        outputs (converse o) (heard o party) (.start sessions) events =
          (messages.take n).flatMap dispatched := by
  intro places messages dispatched
  obtain ⟨hplaces, hheard⟩ := outputs_heard sessions events hwhole party
  refine ⟨Exchange.state_final _ _ _ (process_keeps o) party _ events, hplaces, hheard,
    fun n hn => ?_⟩
  rw [hheard, show outputs (converse o) (Exchange.places party) (.start sessions) events =
    List.range n from hn, Exchange.filterMap_range]

/-- A session that starts a handshake and sends a command, and a network that hands over the
command twice and loses the handshake. -/
def repeatedCommand : List (Exchange.Event Bool (Host × Call)) :=
  [.act false (openHost, .startHandshake),
    .act false (openHost, .send .command (some [1, 2]) 0),
    .deliver true 1, .deliver true 1]

/-- The command that is handed over twice runs twice, in a session that has never left its first
state. -/
theorem heard_as_sent_repeated :
    ((final (converse .little) (.start fun _ => wiredSession) repeatedCommand).state
        true).base.state = .init ∧
      outputs (converse .little) (heard .little true) (.start fun _ => wiredSession)
        repeatedCommand = [.onCommand 3 [1, 2] 2, .onCommand 3 [1, 2] 2] := by
  have hwhole : ∀ party call, .act party call ∈ repeatedCommand → TakesWhole call.1 := by
    intro party call hmem
    have hhost : call.1 = openHost := by
      simp only [repeatedCommand, List.mem_cons, List.not_mem_nil, or_false,
        Exchange.Event.act.injEq, reduceCtorEq] at hmem
      rcases hmem with ⟨-, rfl⟩ | ⟨-, rfl⟩ <;> rfl
    rw [hhost]
    exact fun packet => .inl rfl
  obtain ⟨hstate, -, hheard, -⟩ :=
    heard_as_sent .little (fun _ => wiredSession) repeatedCommand hwhole true
  exact ⟨by rw [hstate]; decide, hheard.trans (by decide)⟩

end LibPolyCall.Protocol
