import LibPolyCall.Protocol.Delivery
import LibPolyCall.Protocol.Setup

/-!
# Sequence numbers on the wire

Every packet of a session carries its `next_sequence`, which `polycall_protocol_send` advances while
it builds the header. A call hands over at most one packet and advances the counter by one with it,
or does neither (`Counts`), so the packets of a run are numbered one after the other. One call
breaks this: the size of a message is checked after its number is taken, so a message that is too
large takes a number and hands nothing over (`send_tooLarge`). The numbers have no gaps exactly when
no message of the run is too large (`noGaps_iff`).
-/

namespace LibPolyCall.Protocol

open Bytes CStrings Runs

/-- The packets handed to `net_send`. -/
def packets (events : List Event) : List (List UInt8) :=
  events.filterMap fun
    | .packet data => some data
    | _ => none

/-- The sequence numbers of the packets handed to `net_send`. -/
def wireSequences (o : ByteOrder) (events : List Event) : List UInt32 :=
  (packets events).map fun packet => (MessageHeader.read o packet).sequence

/-- The packets of events one after the other. -/
@[simp] theorem packets_append (es fs : List Event) :
    packets (es ++ fs) = packets es ++ packets fs :=
  List.filterMap_append

/-- The actions of states hand over no packets. -/
@[simp] theorem packets_stateAction (fs : List Ptr) : packets (fs.map Event.stateAction) = [] := by
  simp [packets]

/-- Error texts hand over no packets. -/
@[simp] theorem packets_errorText (texts : List String) :
    packets (texts.map Event.errorText) = [] := by
  simp [packets]

/-- `on_state_change` hands over no packets. -/
@[simp] theorem packets_callback_onStateChange (f g : Ptr) (a b : ProtocolState) :
    packets (callback f (.onStateChange g a b)) = [] := by
  unfold callback
  split_ifs <;> rfl

/-- The dispatch of a message hands over no packets. -/
@[simp] theorem packets_dispatch (callbacks : Callbacks) (payload : List UInt8)
    (type : MessageType) : packets (dispatch callbacks payload type) = [] := by
  cases type <;> simp only [dispatch, callback]
  all_goals first | rfl | (split_ifs <;> rfl)

/-- The message of a call fits the buffer of `polycall_protocol_send`, if it has one. The payload of
a handshake always does. -/
def Call.Fits : Call → Prop
  | .send _ (some payload) _ => headerSize + payload.length ≤ protocolBufferSize
  | .authenticate (some credentials) => headerSize + credentials.length ≤ protocolBufferSize
  | _ => True

/-- An operation keeps the endpoint, and it hands over one packet, under the next sequence number,
which it advances, or it does neither. -/
def Counts (o : ByteOrder) (ctx ctx' : ProtocolContextInternal) (events : List Event) : Prop :=
  wireSequences o events = [] ∧ ctx'.base.nextSequence = ctx.base.nextSequence ∨
    wireSequences o events = [ctx.base.nextSequence] ∧
      ctx'.base.nextSequence = ctx.base.nextSequence + 1

section Operations

variable (o : ByteOrder) (host : Host) {ctx : ProtocolContextInternal}

/-- A send keeps the endpoint. -/
theorem send_endpoint (ctx : ProtocolContextInternal) (type : MessageType)
    (payload : Option (List UInt8)) (flags : UInt16) :
    (send o host ctx type payload flags).ctx.base.endpoint = ctx.base.endpoint := by
  rcases (send_cases o host ctx type flags payload).1 with h | h <;> rw [h]
  rfl

/-- A send of a message that fits counts. -/
theorem send_counts (ctx : ProtocolContextInternal) (type : MessageType) (payload : List UInt8)
    (flags : UInt16) (hfits : headerSize + payload.length ≤ protocolBufferSize) :
    Counts o ctx (send o host ctx type (some payload) flags).ctx
      (send o host ctx type (some payload) flags).events := by
  simp only [send]
  split_ifs with hempty hlarge
  · exact .inl ⟨rfl, rfl⟩
  · omega
  · refine .inr ⟨?_, rfl⟩
    have hone : packets [Event.packet (messagePacket o ctx type payload flags)] =
        [messagePacket o ctx type payload flags] := rfl
    rw [wireSequences, hone, List.map_singleton, read_messagePacket]

/-- A message that is too large takes a sequence number, and nothing is handed over. -/
theorem send_tooLarge (hendpoint : ctx.base.endpoint ≠ 0) (type : MessageType)
    (payload : List UInt8) (flags : UInt16)
    (hlarge : ¬headerSize + payload.length ≤ protocolBufferSize) :
    (send o host ctx type (some payload) flags).ret = false ∧
      packets (send o host ctx type (some payload) flags).events = [] ∧
      (send o host ctx type (some payload) flags).ctx = ctx.countSequence := by
  have hlength : payload.length ≠ 0 := by
    intro hzero
    rw [hzero] at hlarge
    exact hlarge (by decide)
  simp only [send]
  rw [if_neg (not_or.2 ⟨hendpoint, hlength⟩), if_pos (Nat.lt_of_not_le hlarge)]
  exact ⟨rfl, rfl, rfl⟩

/-- `transition_protocol_state` keeps the endpoint and the sequence number, and hands over
nothing. -/
theorem transition_sequence (host : Host) (ctx : ProtocolContextInternal) (target : ProtocolState) :
    (transitionProtocolState host ctx target).ctx.base.endpoint = ctx.base.endpoint ∧
      (transitionProtocolState host ctx target).ctx.base.nextSequence = ctx.base.nextSequence ∧
      packets (transitionProtocolState host ctx target).events = [] := by
  unfold transitionProtocolState
  dsimp only
  split
  · exact ⟨rfl, rfl, rfl⟩
  · split
    · exact ⟨rfl, rfl, rfl⟩
    · split_ifs
      · exact ⟨rfl, rfl, packets_stateAction _⟩
      · exact ⟨rfl, rfl, by simp⟩
      · exact ⟨rfl, rfl, packets_stateAction _⟩

/-- What follows a send does not touch what it has counted. -/
theorem Counts.append {ctx' ctx'' : ProtocolContextInternal} {events after : List Event}
    (h : Counts o ctx ctx' events)
    (hnext : ctx''.base.nextSequence = ctx'.base.nextSequence) (hafter : packets after = []) :
    Counts o ctx ctx'' (events ++ after) := by
  have hsame : wireSequences o (events ++ after) = wireSequences o events := by
    rw [wireSequences, packets_append, hafter, List.append_nil, wireSequences]
  unfold Counts
  rw [hsame, hnext]
  exact h

/-- An operation that hands over nothing and keeps the sequence number counts. -/
theorem counts_of_none {ctx' : ProtocolContextInternal} {events : List Event}
    (hnext : ctx'.base.nextSequence = ctx.base.nextSequence) (hnone : packets events = []) :
    Counts o ctx ctx' events := by
  refine .inl ⟨?_, hnext⟩
  rw [wireSequences, hnone, List.map_nil]

section Composed

variable (ctx) (type : MessageType) (payload : List UInt8) (flags : UInt16) (target : ProtocolState)

/-- A send and the transition behind it keep the endpoint. -/
theorem sendThenTransition_endpoint :
    (sendThenTransition o host ctx type payload flags target).ctx.base.endpoint =
      ctx.base.endpoint := by
  simp only [sendThenTransition]
  split_ifs
  · exact send_endpoint o host ctx type _ flags
  · rw [(transition_sequence host _ target).1]
    exact send_endpoint o host ctx type _ flags

/-- A send of a message that fits, and the transition behind it, count. -/
theorem sendThenTransition_counts (hfits : headerSize + payload.length ≤ protocolBufferSize) :
    Counts o ctx (sendThenTransition o host ctx type payload flags target).ctx
      (sendThenTransition o host ctx type payload flags target).events := by
  have hsend := send_counts o host ctx type payload flags hfits
  simp only [sendThenTransition]
  split_ifs
  · exact hsend
  · obtain ⟨-, hnext, hnone⟩ := transition_sequence host
      (send o host ctx type (some payload) flags).ctx target
    exact hsend.append o hnext hnone

end Composed

/-- The payload of a handshake fits. -/
theorem handshakePayload_fits :
    headerSize + (handshakePayload o host).length ≤ protocolBufferSize := by
  simp [handshakePayload, headerSize, protocolBufferSize]

/-- `polycall_protocol_start_handshake` keeps the endpoint and counts. -/
theorem startHandshake_counts (ctx : ProtocolContextInternal) :
    (startHandshake o host ctx).ctx.base.endpoint = ctx.base.endpoint ∧
      Counts o ctx (startHandshake o host ctx).ctx (startHandshake o host ctx).events := by
  unfold startHandshake
  split_ifs
  · exact ⟨rfl, counts_of_none o rfl rfl⟩
  · exact ⟨sendThenTransition_endpoint o host ctx _ _ _ _,
      sendThenTransition_counts o host ctx _ _ _ _ (handshakePayload_fits o host)⟩

/-- `polycall_protocol_update` keeps the endpoint and counts. -/
theorem update_counts (ctx : ProtocolContextInternal) :
    (update o host ctx).ctx.base.endpoint = ctx.base.endpoint ∧
      Counts o ctx (update o host ctx).ctx (update o host ctx).events := by
  have hnothing : ctx.base.endpoint = ctx.base.endpoint ∧ Counts o ctx ctx [] :=
    ⟨rfl, counts_of_none o rfl rfl⟩
  have hmove : ∀ target, (transitionProtocolState host ctx target).ctx.base.endpoint =
        ctx.base.endpoint ∧
      Counts o ctx (transitionProtocolState host ctx target).ctx
        (transitionProtocolState host ctx target).events := by
    intro target
    obtain ⟨hendpoint, hnext, hnone⟩ := transition_sequence host ctx target
    exact ⟨hendpoint, counts_of_none o hnext hnone⟩
  unfold update
  split
  · split_ifs
    · exact startHandshake_counts o host ctx
    · exact hnothing
  · split_ifs
    · exact hmove .auth
    · exact hnothing
  · split_ifs
    · exact hmove .ready
    · exact hnothing
  · exact hnothing

/-- `polycall_protocol_process` hands over nothing. -/
theorem process_packets (ctx : ProtocolContextInternal) (data : Option (List UInt8)) :
    packets (process o ctx data).events = [] := by
  cases data with
  | none => rfl
  | some data =>
    rcases process_cases ctx o data with ⟨type, -, heq⟩ | ⟨-, texts, heq⟩
    · rw [heq]
      exact packets_dispatch _ _ _
    · rw [heq]
      exact packets_errorText texts

end Operations

/-! ## Calls -/

section Step

variable (o : ByteOrder) (ctx : ProtocolContextInternal) (call : Host × Call)

/-- A call whose message fits, if it has one, counts. -/
theorem step_counts (hfits : call.2.Fits) :
    Counts o ctx (step o ctx call).1 (step o ctx call).2.events := by
  obtain ⟨host, call⟩ := call
  cases call with
  | startHandshake => exact (startHandshake_counts o host ctx).2
  | completeHandshake =>
    simp only [step, completeHandshake]
    split_ifs
    · exact counts_of_none o rfl rfl
    · -- A transition calls back, and sends nothing.
      obtain ⟨-, hnext, hnone⟩ := transition_sequence host ctx .auth
      exact counts_of_none o hnext hnone
  | authenticate credentials =>
    cases credentials with
    | none => exact counts_of_none o rfl rfl
    | some credentials =>
      simp only [step, authenticate]
      split_ifs
      · exact counts_of_none o rfl rfl
      · exact sendThenTransition_counts o host ctx _ _ _ _ hfits
  | update => exact (update_counts o host ctx).2
  | process data =>
    refine counts_of_none o ?_ (process_packets o ctx data)
    simp only [step, Outcome.returned, (process_quiet o ctx data).1]
  | setError error =>
    cases error with
    | none => exact counts_of_none o rfl rfl
    | some error =>
      obtain ⟨-, hnext, hnone⟩ :=
        transition_sequence host { ctx with lastError := ctx.lastError.print error } .error
      exact counts_of_none o hnext hnone
  | send type payload flags =>
    cases payload with
    | none => exact counts_of_none o rfl rfl
    | some payload => exact send_counts o host ctx type payload flags hfits
  | lockState stateId | unlockState stateId =>
    simp only [step, setMachineLock]
    split <;> exact counts_of_none o rfl rfl

/-- A call keeps the endpoint. -/
theorem step_endpoint : (step o ctx call).1.base.endpoint = ctx.base.endpoint := by
  obtain ⟨host, call⟩ := call
  cases call with
  | startHandshake => exact (startHandshake_counts o host ctx).1
  | completeHandshake =>
    simp only [step, completeHandshake]
    split_ifs
    · rfl
    · exact (transition_sequence host ctx .auth).1
  | authenticate credentials =>
    cases credentials with
    | none => rfl
    | some credentials =>
      simp only [step, authenticate]
      split_ifs
      · rfl
      · exact sendThenTransition_endpoint o host ctx _ _ _ _
  | update => exact (update_counts o host ctx).1
  | process data => simp only [step, Outcome.returned, (process_quiet o ctx data).1]
  | setError error =>
    cases error with
    | none => rfl
    | some error => exact (transition_sequence host _ .error).1
  | send type payload flags => exact send_endpoint o host ctx type payload flags
  | lockState stateId | unlockState stateId =>
    simp only [step, setMachineLock]
    split <;> rfl

/-- A call whose message is too large takes a sequence number, and nothing is handed over. -/
theorem step_tooLarge (hendpoint : ctx.base.endpoint ≠ 0) (hlarge : ¬call.2.Fits) :
    packets (step o ctx call).2.events = [] ∧
      (step o ctx call).1.base.nextSequence = ctx.base.nextSequence + 1 := by
  obtain ⟨host, call⟩ := call
  cases call with
  | send type payload flags =>
    cases payload with
    | none => exact absurd trivial hlarge
    | some payload =>
      obtain ⟨-, hnone, hctx⟩ := send_tooLarge o host hendpoint type payload flags hlarge
      refine ⟨hnone, ?_⟩
      simp only [step, Outcome.returned, hctx]
      rfl
  | authenticate credentials =>
    cases credentials with
    | none => exact absurd trivial hlarge
    | some credentials =>
      obtain ⟨hret, hnone, hctx⟩ := send_tooLarge o host hendpoint .auth credentials
        (flagEncrypted ||| flagReliable) hlarge
      have hlength : credentials.length ≠ 0 := by
        intro hzero
        have hlarge' : ¬headerSize + credentials.length ≤ protocolBufferSize := hlarge
        rw [hzero] at hlarge'
        exact hlarge' (by decide)
      simp only [step, authenticate, sendThenTransition, if_neg hlength, hret, Bool.not_false,
        if_true, Outcome.returned, hctx]
      exact ⟨hnone, rfl⟩
  | startHandshake | completeHandshake | update | process | setError | lockState | unlockState =>
    exact absurd trivial hlarge

end Step

/-! ## Runs -/

/-- The sequence numbers of the packets that a run of calls hands to `net_send`. -/
def runSequences (o : ByteOrder) (ctx : ProtocolContextInternal) (calls : List (Host × Call)) :
    List UInt32 :=
  outputs (step o) (fun ctx call => wireSequences o (step o ctx call).2.events) ctx calls

/-- The packets of a run are numbered 1, 2, 3 and so on, modulo `2^32`, and a call that hands no
packet to `net_send` leaves the counter as it is. -/
structure NoGaps (o : ByteOrder) (ctx : ProtocolContextInternal) (calls : List (Host × Call)) :
    Prop where
  numbered : ∃ n, runSequences o ctx calls = (List.range n).map fun k => UInt32.ofNat (k + 1)
  kept : ∀ m ∈ moves (step o) ctx calls, packets (step o m.1 m.2).2.events = [] →
    (step o m.1 m.2).1.base.nextSequence = m.1.base.nextSequence

/-- Counting up from one, modulo `2^32`. -/
theorem iterate_succ_one (k : ℕ) : (· + 1)^[k] (1 : UInt32) = UInt32.ofNat (k + 1) := by
  induction k with
  | zero => rfl
  | succ k ih =>
    rw [Function.iterate_succ_apply', ih, UInt32.ofNat_add (k + 1)]
    rfl

/-- No sequence number is its own successor. -/
theorem succ_ne (x : UInt32) : x + 1 ≠ x := by
  intro h
  have hnat := congrArg UInt32.toNat h
  have hone : (1 : UInt32).toNat = 1 := rfl
  have hlt := x.toNat_lt
  rw [UInt32.toNat_add, hone] at hnat
  omega

/-- In a run on a session with an endpoint, from the sequence number 1 on, the numbers on the wire
have no gaps exactly when every message fits. -/
theorem noGaps_iff_fits {o : ByteOrder} {ctx : ProtocolContextInternal}
    {calls : List (Host × Call)} (hendpoint : ctx.base.endpoint ≠ 0)
    (hnext : ctx.base.nextSequence = 1) :
    NoGaps o ctx calls ↔ ∀ call ∈ calls, call.2.Fits := by
  have hkeeps : ∀ (c : ProtocolContextInternal) (call : Host × Call), c.base.endpoint ≠ 0 →
      (step o c call).1.base.endpoint ≠ 0 := fun c call hc => by
    rw [step_endpoint]
    exact hc
  have hmoves := (final_of_step hkeeps ctx calls hendpoint).1
  constructor
  · rintro ⟨-, hkept⟩ call hcall
    by_contra hlarge
    obtain ⟨c, hm⟩ : ∃ c, (c, call) ∈ moves (step o) ctx calls := exists_mem_moves hcall
    -- A message that is too large takes a number, and no packet has it.
    obtain ⟨hnone, hsucc⟩ := step_tooLarge o c call (hmoves _ hm) hlarge
    exact succ_ne _ (hsucc.symm.trans (hkept _ hm hnone))
  · intro hfits
    have hall : ∀ m ∈ moves (step o) ctx calls, m.2.2.Fits := fun m hm =>
      hfits m.2 (snd_mem_of_mem_moves hm)
    constructor
    · have hcounts : ∀ (c : ProtocolContextInternal) (call : Host × Call), True → call.2.Fits →
          wireSequences o (step o c call).2.events = [] ∧
              (step o c call).1.base.nextSequence = c.base.nextSequence ∨
            wireSequences o (step o c call).2.events = [c.base.nextSequence] ∧
              (step o c call).1.base.nextSequence = c.base.nextSequence + 1 :=
        fun c call _ hc => step_counts o c call hc
      obtain ⟨n, hn⟩ := outputs_eq_iterates (fun c : ProtocolContextInternal => c.base.nextSequence)
        (· + 1) (fun _ _ _ _ => trivial) hcounts ctx calls trivial hall
      refine ⟨n, hn.trans ?_⟩
      rw [hnext]
      exact List.map_congr_left fun k _ => iterate_succ_one k
    · intro m hm hnone
      rcases step_counts o m.1 m.2 (hall m hm) with ⟨-, hsame⟩ | ⟨hone, -⟩
      · exact hsame
      · rw [wireSequences, hnone] at hone
        cases hone

/-- In every run of calls on a session that is initialised, the packets carry the sequence numbers
1, 2, 3 and so on, and what is refused leaves the counter as it is, exactly when no message of the
run is larger than the buffer of `polycall_protocol_send`. -/
theorem noGaps_iff (o : ByteOrder) (storage : ProtocolContextInternal) (pcCtx endpoint : Ptr)
    (config : Option ProtocolConfig) (contextAllocated machineAllocated : Bool)
    (hinit : (init storage pcCtx endpoint config contextAllocated machineAllocated).ret = true)
    (calls : List (Host × Call)) :
    NoGaps o (init storage pcCtx endpoint config contextAllocated machineAllocated).ctx calls ↔
      ∀ call ∈ calls, call.2.Fits := by
  obtain ⟨given, rfl⟩ := exists_config_of_init hinit
  have hendpoint : endpoint ≠ 0 := by
    rintro rfl
    simp [init] at hinit
  rw [init_ctx hinit]
  exact noGaps_iff_fits hendpoint rfl

/-- A new session that sends one command leaves no gap. -/
theorem noGaps_iff_command :
    NoGaps .little (init blankStorage 1 1 (some fullConfig) true true).ctx
      [(openHost, .send .command (some [1]) 8)] := by
  refine (noGaps_iff .little blankStorage 1 1 (some fullConfig) true true rfl _).2 ?_
  intro call hcall
  rw [List.mem_singleton.1 hcall]
  show headerSize + 1 ≤ protocolBufferSize
  decide

/-- A command of 4081 bytes, and one of a single byte. -/
def largeThenSmall : List (Host × Call) :=
  [(openHost, .send .command (some (List.replicate 4081 0)) 8),
    (openHost, .send .command (some [1]) 8)]

/-- The first packet on the wire has the number 2. -/
theorem large_command_takes_number :
    runSequences .little (init blankStorage 1 1 (some fullConfig) true true).ctx largeThenSmall =
        [2] ∧
      ¬NoGaps .little (init blankStorage 1 1 (some fullConfig) true true).ctx largeThenSmall := by
  have hsequences : runSequences .little (init blankStorage 1 1 (some fullConfig) true true).ctx
      largeThenSmall = [2] := by decide +kernel
  refine ⟨hsequences, fun h => ?_⟩
  obtain ⟨n, hn⟩ := h.numbered
  rw [hsequences] at hn
  cases n with
  | zero => cases hn
  | succ n =>
    rw [List.range_succ_eq_map] at hn
    exact absurd (List.cons.inj hn).1 (by decide)

end LibPolyCall.Protocol
