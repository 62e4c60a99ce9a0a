import LibPolyCall.Protocol.Steps
import LibPolyCall.Protocol.Wiring

/-!
# A session as `polycall_protocol_init` leaves it

`polycall_protocol_init` creates a machine with no transitions and copies the base of its internal
record to the caller. Two things follow. A session that nobody wires is `Unwired`, and no call
wires it, so the handshake that the permission table promises it always fails
(`permitted_steps_fail`). And the callbacks of the session are what the storage behind the
caller's context held before, so the configured ones run only if they were there already
(`configured_callbacks_iff`).
-/

namespace LibPolyCall.Protocol

open Bytes CStrings Runs
open StateMachine (PolyCallStateMachine)

section Init

variable {storage : ProtocolContextInternal} {pcCtx endpoint : Ptr} {config : ProtocolConfig}
  {contextAllocated machineAllocated : Bool}

/-- What a successful `polycall_protocol_init` leaves behind: the base of a new session with an
empty machine, in front of the storage as it was. -/
theorem init_ctx
    (h : (init storage pcCtx endpoint (some config) contextAllocated machineAllocated).ret = true) :
    (init storage pcCtx endpoint (some config) contextAllocated machineAllocated).ctx =
      { storage with base :=
          { pcCtx, stateMachine := some ⟨[], [], 0, pcCtx, true, 0, 0, 0⟩, endpoint,
            nextSequence := 1, state := .init, userData := config.userData } } := by
  simp only [init] at h ⊢
  by_cases hparameters : pcCtx = 0 ∨ endpoint = 0
  · simp [hparameters] at h
  rw [not_or] at hparameters
  cases contextAllocated <;> cases machineAllocated <;>
    simp [hparameters, StateMachine.createWithIntegrity] at h ⊢

/-- A session is initialised only with a configuration. -/
theorem exists_config_of_init {config : Option ProtocolConfig}
    (h : (init storage pcCtx endpoint config contextAllocated machineAllocated).ret = true) :
    ∃ given, config = some given := by
  cases config with
  | none => cases h
  | some given => exact ⟨given, rfl⟩

end Init

/-! ## Steps that the table promises -/

/-- A session in its initial state, on a machine without transitions. -/
def Unwired (ctx : ProtocolContextInternal) : Prop :=
  ctx.base.state = .init ∧ ∃ sm, ctx.base.stateMachine = some sm ∧ sm.transitions = []

/-- The call that takes the session to a state before readiness, or to readiness, returns true and
leaves the session there. -/
def Performs (o : ByteOrder) (host : Host) (ctx : ProtocolContextInternal) :
    ProtocolState → Prop
  | .handshake =>
    (startHandshake o host ctx).ret = true ∧
      (startHandshake o host ctx).ctx.base.state = .handshake
  | .auth =>
    (completeHandshake host ctx).ret = true ∧ (completeHandshake host ctx).ctx.base.state = .auth
  | .ready =>
    ∀ credentials, credentials ≠ [] →
      (authenticate o host ctx (some credentials)).ret = true ∧
        (authenticate o host ctx (some credentials)).ctx.base.state = .ready
  | _ => True

/-- A session that is just initialised is unwired. -/
theorem init_unwired {storage : ProtocolContextInternal} {pcCtx endpoint : Ptr}
    {config : ProtocolConfig} {contextAllocated machineAllocated : Bool}
    (h : (init storage pcCtx endpoint (some config) contextAllocated machineAllocated).ret = true) :
    Unwired (init storage pcCtx endpoint (some config) contextAllocated machineAllocated).ctx := by
  rw [init_ctx h]
  exact ⟨rfl, ⟨[], [], 0, pcCtx, true, 0, 0, 0⟩, rfl, rfl⟩

section Unwired

variable {ctx : ProtocolContextInternal}

/-- An unwired session cannot enter any state. -/
theorem Unwired.not_canEnter (h : Unwired ctx) (host : Host) (target : ProtocolState) :
    ¬ CanEnter host ctx target := by
  obtain ⟨-, sm, hsm, hempty⟩ := h
  rintro ⟨entered, transition, henters⟩
  obtain rfl : sm = entered := Option.some.inj (hsm.symm.trans henters.machine)
  obtain ⟨name, -, henabled⟩ := henters.enabled
  have hmem : transition ∈ sm.transitions := List.mem_of_find?_eq_some henabled.found
  rw [hempty] at hmem
  cases hmem

/-- A call leaves an unwired session unwired. -/
theorem step_unwired (o : ByteOrder) (ctx : ProtocolContextInternal) (call : Host × Call)
    (h : Unwired ctx) : Unwired (step o ctx call).1 := by
  obtain ⟨moved, hfollows, -⟩ := step_follows o ctx call
  cases hfollows with
  | moved hasked hcan hmoves => exact absurd hcan (h.not_canEnter call.1 _)
  | stayed hcannot hstays =>
    obtain ⟨hinit, sm, hsm, hempty⟩ := h
    obtain ⟨sm', hsm', hplace⟩ := hstays.machine_of_some hsm
    exact ⟨hstays.state.trans hinit, sm', hsm', hplace.transitions.trans hempty⟩

/-- An unwired session is permitted the handshake, and cannot start it. -/
theorem Unwired.not_performs (h : Unwired ctx) (o : ByteOrder) (host : Host) :
    canTransition ctx .handshake = true ∧ ¬ Performs o host ctx .handshake := by
  constructor
  · obtain ⟨hinit, sm, hsm, -⟩ := h
    simp [canTransition, hinit, hsm]
  · rintro ⟨hret, -⟩
    have hfollows := startHandshake_follows o host ctx
    rw [hret] at hfollows
    cases hfollows with
    | moved hasked hcan hmoves => exact h.not_canEnter host _ hcan

end Unwired

/-- After every run of calls on a session that is initialised and that nobody wires, some step that
`polycall_protocol_can_transition` permits fails, whatever `net_send` answers. -/
theorem permitted_steps_fail (o : ByteOrder) (storage : ProtocolContextInternal)
    (pcCtx endpoint : Ptr) (config : Option ProtocolConfig)
    (contextAllocated machineAllocated : Bool)
    (hinit : (init storage pcCtx endpoint config contextAllocated machineAllocated).ret = true)
    (calls : List (Host × Call)) (host : Host) :
    ¬ ∀ target,
      canTransition (final (step o)
          (init storage pcCtx endpoint config contextAllocated machineAllocated).ctx calls)
        target = true →
      Performs o host (final (step o)
          (init storage pcCtx endpoint config contextAllocated machineAllocated).ctx calls)
        target := by
  obtain ⟨given, rfl⟩ := exists_config_of_init hinit
  have hunwired := (final_of_step (step_unwired o) _ calls (init_unwired hinit)).2
  -- The step that is permitted and fails is always the handshake.
  obtain ⟨hpermitted, hfails⟩ := hunwired.not_performs o host
  exact fun hperforms => hfails (hperforms .handshake hpermitted)

/-- A configuration with five callbacks. -/
def fullConfig : ProtocolConfig := ⟨⟨1, 2, 3, 4, 5⟩, 0⟩

/-- Storage that nothing has written to. -/
def blankStorage : ProtocolContextInternal where
  base :=
    { pcCtx := 0, stateMachine := none, endpoint := 0, nextSequence := 0, state := .init,
      userData := 0 }
  callbacks := ⟨0, 0, 0, 0, 0⟩
  lastError := CharArray.zeros _

/-- A session that is initialised and updated is stuck. -/
theorem updated_session_fails :
    ¬ ∀ target,
      canTransition (final (step .little)
          (init blankStorage 1 1 (some fullConfig) true true).ctx [(openHost, .update)])
        target = true →
      Performs .little openHost (final (step .little)
          (init blankStorage 1 1 (some fullConfig) true true).ctx [(openHost, .update)])
        target :=
  permitted_steps_fail .little blankStorage 1 1 (some fullConfig) true true rfl
    [(openHost, .update)] openHost

/-- A session that is just initialised is permitted the handshake, and cannot start it although its
message is delivered. -/
theorem new_session_cannot_start :
    (init blankStorage 1 1 (some fullConfig) true true).ret = true ∧
      canTransition (init blankStorage 1 1 (some fullConfig) true true).ctx .handshake = true ∧
      (startHandshake .little openHost
        (init blankStorage 1 1 (some fullConfig) true true).ctx).ret = false := by
  refine ⟨rfl, rfl, ?_⟩
  decide

/-! ## The callbacks that run -/

/-- In every run of a session that is initialised, the callback table is the configured one and
every accepted message runs the configured callback of its type, exactly when the storage behind
the caller's context held the configured callbacks before. -/
theorem configured_callbacks_iff (o : ByteOrder) (storage : ProtocolContextInternal)
    (pcCtx endpoint : Ptr) (config : ProtocolConfig) (contextAllocated machineAllocated : Bool)
    (hinit : (init storage pcCtx endpoint (some config) contextAllocated
      machineAllocated).ret = true) :
    (∀ calls, (final (step o) (init storage pcCtx endpoint (some config) contextAllocated
          machineAllocated).ctx calls).callbacks = config.callbacks ∧
        ∀ data type, Accepted o data type →
          (process o (final (step o) (init storage pcCtx endpoint (some config) contextAllocated
              machineAllocated).ctx calls) (some data)).events =
            dispatch config.callbacks (data.drop headerSize) type) ↔
      storage.callbacks = config.callbacks := by
  -- No call writes to the callbacks, so they are what `init` left.
  have hcallbacks : ∀ calls, (final (step o) (init storage pcCtx endpoint (some config)
      contextAllocated machineAllocated).ctx calls).callbacks = storage.callbacks := by
    intro calls
    refine (final_of_step (P := fun s => s.callbacks = storage.callbacks)
      (fun s call h => (step_callbacks o s call).trans h) _ calls ?_).2
    rw [init_ctx hinit]
  constructor
  · intro h
    exact (hcallbacks []).symm.trans (h []).1
  · intro hsame calls
    have hconfigured := (hcallbacks calls).trans hsame
    refine ⟨hconfigured, fun data type haccepted => ?_⟩
    rw [process_of_accepted _ haccepted, hconfigured]

/-- Storage that holds the configured callbacks already. -/
def refilledStorage : ProtocolContextInternal :=
  { blankStorage with callbacks := fullConfig.callbacks }

/-- In such storage the configured callbacks are still there after an update. -/
theorem refilled_storage_keeps_callbacks :
    (final (step .little) (init refilledStorage 1 1 (some fullConfig) true true).ctx
      [(openHost, .update)]).callbacks = fullConfig.callbacks :=
  ((configured_callbacks_iff .little refilledStorage 1 1 fullConfig true true rfl).2 rfl
    [(openHost, .update)]).1

/-- In blank storage no configured callback runs: a command is accepted, and `on_command` is not
called. -/
theorem blank_storage_loses_callbacks :
    (init blankStorage 1 1 (some fullConfig) true true).ret = true ∧
      (init blankStorage 1 1 (some fullConfig) true true).ctx.callbacks ≠ fullConfig.callbacks ∧
      (process .little (init blankStorage 1 1 (some fullConfig) true true).ctx
        (some (messagePacket .little blankStorage .command [1] 0))).ret = true ∧
      (process .little (init blankStorage 1 1 (some fullConfig) true true).ctx
        (some (messagePacket .little blankStorage .command [1] 0))).events = [] := by
  refine ⟨rfl, ?_, ?_, ?_⟩ <;> decide

end LibPolyCall.Protocol
