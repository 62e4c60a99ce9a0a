import LibPolyCall.Library.Mask
import LibPolyCall.Protocol.Session

/-!
# The micro-service context

The records of `polycall_micro.h` and the operations of `polycall_micro.c` on the table of
services, each `polycall_micro_f` under the name `f`. The table is an array of 32 slots, and
`active_mask` tells which of them are in use. The loops over the slots run over `Fin 32`, in
order. An operation takes a context, so the `NULL` context, on which every operation returns at
once, is left out; the other pointers that an operation checks are options. What
`get_current_timestamp` returns is an argument. The endpoints and the memory pool of a service,
which no operation looks at, are left out.
-/

namespace LibPolyCall.Micro

open CStrings
open StateMachine (PolyCallStateMachine)

/-- `POLYCALL_MICRO_MAX_SERVICES`. -/
def maxServices : ℕ := 32

/-- `POLYCALL_MICRO_MAX_COMMANDS`. -/
def maxCommands : ℕ := 64

/-- `POLYCALL_MICRO_BUFFER_SIZE`. -/
def bufferSize : ℕ := 4096

/-- `PolycallCommand`. -/
structure PolycallCommand where
  id : UInt32
  flags : UInt32
  payloadSize : UInt32
  payload : List.Vector UInt8 bufferSize
deriving DecidableEq

/-- `PolycallCommandArray`. -/
structure PolycallCommandArray where
  /-- `commands[0]` to `commands[count - 1]`. -/
  commands : List PolycallCommand
  capacity : UInt32
deriving DecidableEq

/-- `count` of a command array. -/
def PolycallCommandArray.count (array : PolycallCommandArray) : ℕ := array.commands.length

/-- `PolycallServiceState`, without the fields that no operation looks at. -/
structure PolycallServiceState where
  id : UInt32
  flags : UInt32
  state : UInt32
  lastUpdate : UInt64
  commandQueue : PolycallCommandArray
deriving DecidableEq

/-- The record that `memset` leaves behind. -/
def zeroService : PolycallServiceState := ⟨0, 0, 0, 0, ⟨[], 0⟩⟩

/-- A slot of the table. -/
abbrev Slot := Fin 32

/-- `PolycallServiceArray`. -/
structure PolycallServiceArray where
  services : List.Vector PolycallServiceState 32
  count : UInt32
  activeMask : UInt32
  lastGc : UInt64

/-- `PolycallMicroContext`. -/
structure PolycallMicroContext where
  serviceArray : PolycallServiceArray
  stateMachine : Option PolyCallStateMachine
  protocolCtx : Protocol.ProtocolContext
  flags : UInt32
  startupTime : UInt64

/-- `PolycallMicroStatus`. -/
inductive PolycallMicroStatus where
  | success
  | errorInit
  | errorService
  | errorCommand
  | errorProtocol
  | errorMemory
deriving DecidableEq, Repr

namespace PolycallMicroContext

variable (ctx : PolycallMicroContext)

/-- `service_array.services[i]`. -/
def service (i : Slot) : PolycallServiceState := ctx.serviceArray.services.get i

/-- `service_array.active_mask & (1U << i)`. -/
def isActive (i : Slot) : Bool := Mask.isSet ctx.serviceArray.activeMask i

/-- `service_array.services[i]` rewritten in place. -/
def setService (i : Slot) (service : PolycallServiceState) : PolycallMicroContext :=
  { ctx with
    serviceArray :=
      { ctx.serviceArray with services := ctx.serviceArray.services.set i service } }

/-- The loops of the operations: the first active slot whose service has this id. -/
def findService (serviceId : UInt32) : Option Slot :=
  (List.finRange 32).find? fun i => ctx.isActive i && (ctx.service i).id = serviceId

end PolycallMicroContext

/-- `reset_command_array`. -/
def resetCommandArray : PolycallCommandArray := ⟨[], UInt32.ofNat maxCommands⟩

/-- `reset_service_state`. -/
def resetServiceState : PolycallServiceState :=
  { zeroService with commandQueue := resetCommandArray }

/-! ## Services -/

/-- The loop `while (mask & (1U << slot)) slot++`: the first slot whose bit is clear. Without one,
the loop goes on to shift by 32, which is undefined. -/
def findSlot (mask : UInt32) : Option Slot :=
  (List.finRange 32).find? fun slot => !Mask.isSet mask slot

/-- The record that `create_service` writes into its slot. -/
def newService (now : UInt64) (serviceId flags : UInt32) : PolycallServiceState :=
  { resetServiceState with id := serviceId, flags, lastUpdate := now }

/-- `polycall_micro_create_service`. -/
def createService (now : UInt64) (ctx : PolycallMicroContext) (serviceId flags : UInt32) :
    PolycallMicroStatus × PolycallMicroContext :=
  if maxServices ≤ ctx.serviceArray.count.toNat then (.errorService, ctx)
  else
    match findSlot ctx.serviceArray.activeMask with
    -- What the test behind the loop answers, should the loop get there.
    | none => (.errorService, ctx)
    | some slot =>
      let ctx := ctx.setService slot (newService now serviceId flags)
      (.success,
        { ctx with
          serviceArray :=
            { ctx.serviceArray with
              activeMask := Mask.insert ctx.serviceArray.activeMask slot,
              count := ctx.serviceArray.count + 1 } })

/-- What `destroy_service` does to the slot that it finds. -/
def PolycallMicroContext.clear (ctx : PolycallMicroContext) (i : Slot) : PolycallMicroContext :=
  let ctx := ctx.setService i resetServiceState
  { ctx with
    serviceArray :=
      { ctx.serviceArray with
        activeMask := Mask.erase ctx.serviceArray.activeMask i,
        count := ctx.serviceArray.count - 1 } }

/-- `polycall_micro_destroy_service`. -/
def destroyService (ctx : PolycallMicroContext) (serviceId : UInt32) :
    PolycallMicroStatus × PolycallMicroContext :=
  match ctx.findService serviceId with
  | none => (.errorService, ctx)
  | some i => (.success, ctx.clear i)

/-- `polycall_micro_update_service_state`. -/
def updateServiceState (now : UInt64) (ctx : PolycallMicroContext) (serviceId newState : UInt32) :
    PolycallMicroStatus × PolycallMicroContext :=
  match ctx.findService serviceId with
  | none => (.errorService, ctx)
  | some i =>
    (.success, ctx.setService i { ctx.service i with state := newState, lastUpdate := now })

/-! ## Commands -/

/-- The body of the loop of `batch_process`: a command whose payload is not too large is added to
the queue while there is room. -/
def enqueue (queue : PolycallCommandArray) (cmd : PolycallCommand) : PolycallCommandArray :=
  if bufferSize < cmd.payloadSize.toNat then queue
  else if queue.count < queue.capacity.toNat then
    { queue with commands := queue.commands ++ [cmd] }
  else queue

/-- A service after a batch. -/
def PolycallServiceState.processed (service : PolycallServiceState) (now : UInt64)
    (commands : PolycallCommandArray) : PolycallServiceState :=
  { service with
    commandQueue := commands.commands.foldl enqueue service.commandQueue, lastUpdate := now }

/-- `polycall_micro_batch_process`, on an array that is not the queue of the service itself. -/
def batchProcess (now : UInt64) (ctx : PolycallMicroContext) (serviceId : UInt32)
    (commands : Option PolycallCommandArray) : PolycallMicroStatus × PolycallMicroContext :=
  match commands with
  | none => (.errorCommand, ctx)
  | some commands =>
    match ctx.findService serviceId with
    | none => (.errorService, ctx)
    | some i => (.success, ctx.setService i ((ctx.service i).processed now commands))

/-! ## Garbage collection -/

/-- The timeout of `collect_garbage`, in seconds. -/
def timeout : UInt64 := 3600

/-- The body of the loop of `collect_garbage`: a stale service is destroyed by its id. -/
def collectSlot (now : UInt64) (ctx : PolycallMicroContext) (i : Slot) : PolycallMicroContext :=
  if ctx.isActive i then
    let service := ctx.service i
    if timeout < now - service.lastUpdate then (destroyService ctx service.id).2 else ctx
  else ctx

/-- `polycall_micro_collect_garbage`. -/
def collectGarbage (now : UInt64) (ctx : PolycallMicroContext) :
    PolycallMicroStatus × PolycallMicroContext :=
  let ctx := (List.finRange 32).foldl (collectSlot now) ctx
  (.success, { ctx with serviceArray := { ctx.serviceArray with lastGc := now } })

/-! ## Set-up -/

/-- `polycall_config_t`, as far as `polycall_micro_init` reads it. -/
structure PolycallConfig where
  flags : UInt32
  userData : Ptr

/-- What `polycall_micro_init` finds outside the context. -/
structure InitHost where
  /-- What the first `get_current_timestamp` returns. -/
  now : UInt64
  /-- What the second one returns. -/
  startupTime : UInt64
  /-- The address of the local `endpoint`. -/
  endpoint : Ptr
  machineAllocated : Bool
  protocolAllocated : Bool
  protocolMachineAllocated : Bool

/-- `polycall_micro_init`, on the storage at the caller's `ctx`. -/
def init (host : InitHost) (ctx : PolycallMicroContext) (config : Option PolycallConfig) :
    PolycallMicroStatus × PolycallMicroContext :=
  match config with
  | none => (.errorInit, ctx)
  | some config =>
    let ctx :=
      { ctx with
        serviceArray :=
          { services := List.Vector.replicate 32 zeroService, count := 0, activeMask := 0,
            lastGc := host.now } }
    let created := StateMachine.createWithIntegrity config.userData 0 host.machineAllocated
    if created.1 ≠ .success then
      (.errorInit, if config.userData = 0 then ctx else { ctx with stateMachine := none })
    else
      let ctx := { ctx with stateMachine := created.2 }
      let protocolConfig : Protocol.ProtocolConfig :=
        { callbacks := ⟨0, 0, 0, 0, 0⟩, userData := config.userData }
      -- Only the base of a protocol context is stored here.
      let storage : Protocol.ProtocolContextInternal :=
        ⟨ctx.protocolCtx, protocolConfig.callbacks, CharArray.zeros _⟩
      let opened := Protocol.init storage config.userData host.endpoint (some protocolConfig)
        host.protocolAllocated host.protocolMachineAllocated
      -- On failure the machine is destroyed, and the pointer to it stays.
      if !opened.ret then (.errorProtocol, ctx)
      else
        (.success,
          { ctx with
            protocolCtx := opened.ctx.base, flags := config.flags,
            startupTime := host.startupTime })

end LibPolyCall.Micro
