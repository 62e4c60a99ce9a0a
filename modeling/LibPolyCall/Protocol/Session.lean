import LibPolyCall.Protocol.Message

/-!
# The protocol session

The context of `polycall_protocol.c` and its operations, each `polycall_protocol_f` under the name
`f`. An operation takes the context as `protocol_context_internal_t`, the type to which the source
casts the caller's pointer: `base` is the caller's own object, and the callbacks and the error
buffer are whatever the storage behind that object holds. The `NULL` context, on which every
operation returns at once, is left out; the other pointers that an operation checks are options.

What an operation does outside the context is recorded as a list of events: packets handed to
`net_send`, functions called, and texts written to `protocol_error_buffer`, which nothing reads.
The functions called do not change the context themselves: where one of the five callbacks calls
back into the protocol, it does so as the last thing that the operation does, so that its calls
follow the operation in a run.
-/

namespace LibPolyCall.Protocol

open Bytes CStrings
open StateMachine (PolyCallStateMachine executeTransition)

/-- `polycall_protocol_state_t`. -/
inductive ProtocolState where
  | init
  | handshake
  | auth
  | ready
  | error
  | closed
deriving DecidableEq, Repr

/-- The value of a protocol state. -/
def ProtocolState.code : ProtocolState → UInt32
  | .init => 0
  | .handshake => 1
  | .auth => 2
  | .ready => 3
  | .error => 4
  | .closed => 5

/-- `polycall_protocol_callbacks_t`. -/
structure Callbacks where
  onHandshake : Ptr
  onAuthRequest : Ptr
  onCommand : Ptr
  onError : Ptr
  onStateChange : Ptr
deriving DecidableEq

/-- `polycall_protocol_config_t`, as far as `polycall_protocol_init` reads it. -/
structure ProtocolConfig where
  callbacks : Callbacks
  userData : Ptr
deriving DecidableEq

/-- `polycall_protocol_context_t`. -/
structure ProtocolContext where
  pcCtx : Ptr
  /-- The machine behind the pointer, if it is not `NULL`. -/
  stateMachine : Option PolyCallStateMachine
  endpoint : Ptr
  nextSequence : UInt32
  state : ProtocolState
  userData : Ptr
deriving DecidableEq

/-- `MAX_ERROR_LENGTH`. -/
def maxErrorLength : ℕ := 256

/-- `protocol_context_internal_t`. -/
structure ProtocolContextInternal where
  base : ProtocolContext
  callbacks : Callbacks
  lastError : CharArray maxErrorLength
deriving DecidableEq

/-- What an operation does outside the context. -/
inductive Event where
  /-- A text written to `protocol_error_buffer`. -/
  | errorText (text : String)
  /-- A packet handed to `net_send`. -/
  | packet (data : List UInt8)
  /-- A state action of the state machine called. -/
  | stateAction (function : Ptr)
  | onHandshake (function : Ptr)
  | onAuthRequest (function : Ptr) (credentials : List UInt8)
  | onCommand (function : Ptr) (command : List UInt8) (length : ℕ)
  | onError (function : Ptr) (error : List UInt8)
  | onStateChange (function : Ptr) (oldState newState : ProtocolState)
deriving DecidableEq

/-- What an operation finds outside the context. -/
structure Host extends StateMachine.Host where
  /-- What `net_send` returns for a packet. -/
  netSend : List UInt8 → ℤ
  /-- The byte that the compiler leaves between the fields of the handshake payload. -/
  paddingByte : UInt8

/-- What an operation leaves behind. -/
structure Outcome (α : Type) where
  ret : α
  ctx : ProtocolContextInternal
  events : List Event

/-- A callback, called unless it is `NULL`. -/
def callback (function : Ptr) (event : Event) : List Event :=
  if function = 0 then [] else [event]

section ContextUpdates

variable (ctx : ProtocolContextInternal)

/-- `ctx->state = state`. -/
def ProtocolContextInternal.setState (state : ProtocolState) : ProtocolContextInternal :=
  { ctx with base := { ctx.base with state } }

/-- The machine behind `ctx->state_machine` rewritten in place. -/
def ProtocolContextInternal.setStateMachine (sm : PolyCallStateMachine) :
    ProtocolContextInternal :=
  { ctx with base := { ctx.base with stateMachine := some sm } }

/-- `ctx->next_sequence++`. -/
def ProtocolContextInternal.countSequence : ProtocolContextInternal :=
  { ctx with base := { ctx.base with nextSequence := ctx.base.nextSequence + 1 } }

end ContextUpdates

/-! ## State -/

/-- The switch of `transition_protocol_state`: the name of the transition to a state, and none for
the initial state. -/
def transitionName : ProtocolState → Option CString
  | .init => none
  | .handshake =>
    some (CString.ofChars ['t', 'o', '_', 'h', 'a', 'n', 'd', 's', 'h', 'a', 'k', 'e'])
  | .auth => some (CString.ofChars ['t', 'o', '_', 'a', 'u', 't', 'h'])
  | .ready => some (CString.ofChars ['t', 'o', '_', 'r', 'e', 'a', 'd', 'y'])
  | .error => some (CString.ofChars ['t', 'o', '_', 'e', 'r', 'r', 'o', 'r'])
  | .closed => some (CString.ofChars ['t', 'o', '_', 'c', 'l', 'o', 's', 'e', 'd'])

/-- `transition_protocol_state`. -/
def transitionProtocolState (host : Host) (ctx : ProtocolContextInternal)
    (newState : ProtocolState) : Outcome Bool :=
  match ctx.base.stateMachine with
  | none => ⟨false, ctx, []⟩
  | some sm =>
    let oldState := ctx.base.state
    match transitionName newState with
    | none => ⟨false, ctx, []⟩
    | some name =>
      let executed := executeTransition host.toHost sm (some name)
      let ctx := ctx.setStateMachine executed.machine
      let actions := executed.called.map Event.stateAction
      if executed.status ≠ .success then ⟨false, ctx, actions⟩
      else
        let ctx := ctx.setState newState
        if ctx.base.state ≠ oldState then
          ⟨true, ctx, actions ++ callback ctx.callbacks.onStateChange
            (.onStateChange ctx.callbacks.onStateChange oldState newState)⟩
        else ⟨true, ctx, actions⟩

/-- `polycall_protocol_can_transition`. -/
def canTransition (ctx : ProtocolContextInternal) (targetState : ProtocolState) : Bool :=
  if ctx.base.stateMachine.isNone then false
  else
    match ctx.base.state with
    | .init => targetState = .handshake
    | .handshake => targetState = .auth
    | .auth => targetState = .ready
    | .ready => targetState = .error || targetState = .closed
    | .error => targetState = .closed
    | .closed => false

/-- `polycall_protocol_is_authenticated`. -/
def isAuthenticated (ctx : ProtocolContextInternal) : Bool :=
  ProtocolState.ready.code ≤ ctx.base.state.code && ctx.base.state.code < ProtocolState.error.code

/-! ## Set-up -/

/-- `polycall_protocol_init` on the storage at the caller's `ctx`, with the outcomes of the two
`calloc` calls. Only the base of the internal record is copied to the caller. -/
def init (storage : ProtocolContextInternal) (pcCtx endpoint : Ptr)
    (config : Option ProtocolConfig) (contextAllocated machineAllocated : Bool) : Outcome Bool :=
  match config with
  | none => ⟨false, storage, [.errorText "Invalid parameters"]⟩
  | some config =>
    if pcCtx = 0 ∨ endpoint = 0 then ⟨false, storage, [.errorText "Invalid parameters"]⟩
    else if !contextAllocated then ⟨false, storage, [.errorText "Memory allocation failed"]⟩
    else
      let created := StateMachine.createWithIntegrity pcCtx 0 machineAllocated
      if created.1 ≠ .success then
        ⟨false, storage, [.errorText "Failed to create protocol state machine"]⟩
      else
        let internalCtx : ProtocolContextInternal :=
          { base :=
              { pcCtx, stateMachine := created.2, endpoint, nextSequence := 1, state := .init,
                userData := config.userData },
            callbacks := config.callbacks,
            lastError := CharArray.zeros _ }
        -- The callbacks of the internal record stay behind in it.
        ⟨true, { storage with base := internalCtx.base }, []⟩

/-! ## Messages -/

section Messages

variable (o : ByteOrder)

/-- The packet that `polycall_protocol_send` builds. -/
def messagePacket (ctx : ProtocolContextInternal) (type : MessageType) (payload : List UInt8)
    (flags : UInt16) : List UInt8 :=
  let header : MessageHeader :=
    { version := protocolVersion, type := type.code, flags, sequence := ctx.base.nextSequence,
      payloadLength := UInt32.ofNat payload.length, checksum := calculateChecksum payload }
  header.write o ++ payload

/-- `polycall_protocol_send`. -/
def send (host : Host) (ctx : ProtocolContextInternal) (type : MessageType)
    (payload : Option (List UInt8)) (flags : UInt16) : Outcome Bool :=
  match payload with
  | none => ⟨false, ctx, []⟩
  | some payload =>
    if ctx.base.endpoint = 0 ∨ payload.length = 0 then ⟨false, ctx, []⟩
    else
      let packet := messagePacket o ctx type payload flags
      -- The sequence number is used up also by a message that turns out to be too large.
      let ctx := ctx.countSequence
      let totalSize := headerSize + payload.length
      if protocolBufferSize < totalSize then
        ⟨false, ctx,
          [.errorText ("Message too large: " ++ toString (totalSize % 2 ^ 32) ++ " bytes")]⟩
      else ⟨host.netSend packet = totalSize, ctx, [.packet packet]⟩

/-- `polycall_protocol_process`. -/
def process (ctx : ProtocolContextInternal) (data : Option (List UInt8)) : Outcome Bool :=
  match data with
  | none => ⟨false, ctx, []⟩
  | some data =>
    if data.length < headerSize then ⟨false, ctx, []⟩
    else
      let header := MessageHeader.read o data
      -- All that follows the header, whatever length the header declares.
      let payload := data.drop headerSize
      match validateMessageHeader header with
      | .error text => ⟨false, ctx, [.errorText text]⟩
      | .ok () =>
        if !verifyChecksum header payload then
          ⟨false, ctx, [.errorText "Checksum verification failed"]⟩
        else
          match MessageType.ofCode? header.type with
          | some .handshake =>
            ⟨true, ctx, callback ctx.callbacks.onHandshake
              (.onHandshake ctx.callbacks.onHandshake)⟩
          | some .auth =>
            ⟨true, ctx, callback ctx.callbacks.onAuthRequest
              (.onAuthRequest ctx.callbacks.onAuthRequest payload)⟩
          | some .command =>
            ⟨true, ctx, callback ctx.callbacks.onCommand
              (.onCommand ctx.callbacks.onCommand payload payload.length)⟩
          | some .error =>
            ⟨true, ctx, callback ctx.callbacks.onError
              (.onError ctx.callbacks.onError payload)⟩
          | some .heartbeat => ⟨true, ctx, []⟩
          -- A response ends here too: the switch has no case for it.
          | _ => ⟨false, ctx, []⟩

/-- The payload of the handshake: the magic number, the version, a gap, and the flags. -/
def handshakePayload (host : Host) : List UInt8 :=
  encode o 4 protocolMagic ++ [protocolVersion, host.paddingByte] ++ encode o 2 0

/-- A send, and on success the transition to a state: the end of `start_handshake` and of
`authenticate`. -/
def sendThenTransition (host : Host) (ctx : ProtocolContextInternal) (type : MessageType)
    (payload : List UInt8) (flags : UInt16) (newState : ProtocolState) : Outcome Bool :=
  let sent := send o host ctx type (some payload) flags
  if !sent.ret then sent
  else
    let moved := transitionProtocolState host sent.ctx newState
    ⟨moved.ret, moved.ctx, sent.events ++ moved.events⟩

/-- `polycall_protocol_start_handshake`. -/
def startHandshake (host : Host) (ctx : ProtocolContextInternal) : Outcome Bool :=
  if ctx.base.state ≠ .init then ⟨false, ctx, []⟩
  else
    sendThenTransition o host ctx .handshake (handshakePayload o host) flagReliable .handshake

/-- `polycall_protocol_complete_handshake`. -/
def completeHandshake (host : Host) (ctx : ProtocolContextInternal) : Outcome Bool :=
  if ctx.base.state ≠ .handshake then ⟨false, ctx, []⟩
  else transitionProtocolState host ctx .auth

/-- `polycall_protocol_authenticate`, on the `credentials_length` bytes at `credentials`. -/
def authenticate (host : Host) (ctx : ProtocolContextInternal)
    (credentials : Option (List UInt8)) : Outcome Bool :=
  match credentials with
  | none => ⟨false, ctx, []⟩
  | some credentials =>
    if credentials.length = 0 then ⟨false, ctx, []⟩
    else
      sendThenTransition o host ctx .auth credentials (flagEncrypted ||| flagReliable) .ready

/-- The void result of an operation whose callees return a value. -/
def Outcome.void {α : Type} (r : Outcome α) : Outcome Unit := ⟨(), r.ctx, r.events⟩

/-- `polycall_protocol_update`. -/
def update (host : Host) (ctx : ProtocolContextInternal) : Outcome Unit :=
  match ctx.base.state with
  | .init =>
    if canTransition ctx .handshake then (startHandshake o host ctx).void else ⟨(), ctx, []⟩
  | .handshake =>
    if canTransition ctx .auth then (transitionProtocolState host ctx .auth).void else ⟨(), ctx, []⟩
  | .auth =>
    -- The transition that `authenticate` makes, without its message.
    if canTransition ctx .ready then (transitionProtocolState host ctx .ready).void
    else ⟨(), ctx, []⟩
  | _ => ⟨(), ctx, []⟩

/-- `polycall_protocol_set_error`. -/
def setError (host : Host) (ctx : ProtocolContextInternal) (error : Option CString) :
    Outcome Unit :=
  match error with
  | none => ⟨(), ctx, []⟩
  | some error =>
    let ctx := { ctx with lastError := ctx.lastError.print error }
    (transitionProtocolState host ctx .error).void

end Messages

end LibPolyCall.Protocol
