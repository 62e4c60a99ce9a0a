import LibPolyCall.Library.Runs
import LibPolyCall.Protocol.Process
import LibPolyCall.StateMachine.Execute

/-!
# What a call can do to the session

A run of the session is a list of calls, each with the host that it finds. Besides the operations
of the protocol, a run may lock and unlock states of the session's machine.

A call moves the session in one way only, through `transition_protocol_state`, and there only
where the machine has an enabled transition under the name of the state (`CanEnter`). The session
then moves (`MovesTo`): otherwise its state, the place of its machine and its callbacks stay as
they are, and nobody is notified (`Stays`). `Follows` is the disjunction, and `transition_follows`
proves it of `transition_protocol_state`.
-/

namespace LibPolyCall.Protocol

open Bytes CStrings Runs
open StateMachine (PolyCallStateMachine PolyCallTransition Enabled executeTransition
  executeTransition_of_enabled executeTransition_of_not_enabled)

/-- A call on the session, with its arguments. -/
inductive Call where
  | startHandshake
  | completeHandshake
  | authenticate (credentials : Option (List UInt8))
  | update
  | process (data : Option (List UInt8))
  | setError (error : Option CString)
  | send (type : MessageType) (payload : Option (List UInt8)) (flags : UInt16)
  | lockState (stateId : UInt32)
  | unlockState (stateId : UInt32)

/-- What a call hands back: its result, if it has one, and its events. -/
structure Reply where
  ret : Option Bool
  events : List Event

/-- The result of an operation that returns a value. -/
def Outcome.returned (r : Outcome Bool) : ProtocolContextInternal × Reply :=
  (r.ctx, ⟨some r.ret, r.events⟩)

/-- The result of an operation that returns nothing. -/
def Outcome.done (r : Outcome Unit) : ProtocolContextInternal × Reply :=
  (r.ctx, ⟨none, r.events⟩)

/-- A direct call on the session's machine that sets a lock. -/
def setMachineLock (locked : Bool) (host : Host) (ctx : ProtocolContextInternal)
    (stateId : UInt32) : ProtocolContextInternal × Reply :=
  match ctx.base.stateMachine with
  | none => (ctx, ⟨none, []⟩)
  | some sm =>
    (ctx.setStateMachine (StateMachine.setLock locked host.toHost sm stateId).2, ⟨none, []⟩)

/-- One call on the session. -/
def step (o : ByteOrder) (ctx : ProtocolContextInternal) (call : Host × Call) :
    ProtocolContextInternal × Reply :=
  match call.2 with
  | .startHandshake => (startHandshake o call.1 ctx).returned
  | .completeHandshake => (completeHandshake call.1 ctx).returned
  | .authenticate credentials => (authenticate o call.1 ctx credentials).returned
  | .update => (update o call.1 ctx).done
  | .process data => (process o ctx data).returned
  | .setError error => (setError call.1 ctx error).done
  | .send type payload flags => (send o call.1 ctx type payload flags).returned
  | .lockState stateId => setMachineLock true call.1 ctx stateId
  | .unlockState stateId => setMachineLock false call.1 ctx stateId

/-! ## Events -/

/-- The state changes that `on_state_change` is told of. -/
def notifications (events : List Event) : List (ProtocolState × ProtocolState) :=
  events.filterMap fun
    | .onStateChange _ oldState newState => some (oldState, newState)
    | _ => none

/-- The calls of `on_command`, each with its command and length. -/
def commands (events : List Event) : List (List UInt8 × ℕ) :=
  events.filterMap fun
    | .onCommand _ command length => some (command, length)
    | _ => none

/-- The notifications of events one after the other. -/
@[simp] theorem notifications_append (es fs : List Event) :
    notifications (es ++ fs) = notifications es ++ notifications fs :=
  List.filterMap_append

/-- The commands of events one after the other. -/
@[simp] theorem commands_append (es fs : List Event) :
    commands (es ++ fs) = commands es ++ commands fs :=
  List.filterMap_append

/-- The actions of states notify nobody. -/
@[simp] theorem notifications_stateAction (fs : List Ptr) :
    notifications (fs.map Event.stateAction) = [] := by
  simp [notifications]

/-- The actions of states are no commands. -/
@[simp] theorem commands_stateAction (fs : List Ptr) :
    commands (fs.map Event.stateAction) = [] := by
  simp [commands]

/-- `on_state_change` is notified, if it is set. -/
@[simp] theorem notifications_callback_onStateChange (f g : Ptr) (a b : ProtocolState) :
    notifications (callback f (.onStateChange g a b)) = if f = 0 then [] else [(a, b)] := by
  unfold callback
  split_ifs <;> rfl

/-- `on_state_change` is no command. -/
@[simp] theorem commands_callback_onStateChange (f g : Ptr) (a b : ProtocolState) :
    commands (callback f (.onStateChange g a b)) = [] := by
  unfold callback
  split_ifs <;> rfl

/-- Error texts notify nobody. -/
@[simp] theorem notifications_errorText (texts : List String) :
    notifications (texts.map Event.errorText) = [] := by
  simp [notifications]

/-- Error texts are no commands. -/
@[simp] theorem commands_errorText (texts : List String) :
    commands (texts.map Event.errorText) = [] := by
  simp [commands]

/-- The dispatch of a message notifies nobody of a change of state. -/
@[simp] theorem notifications_dispatch (callbacks : Callbacks) (payload : List UInt8)
    (type : MessageType) : notifications (dispatch callbacks payload type) = [] := by
  cases type <;> simp only [dispatch, callback]
  all_goals first | rfl | (split_ifs <;> rfl)

/-- A message that is dispatched calls `on_command` if it is a command. -/
theorem commands_dispatch (callbacks : Callbacks) (payload : List UInt8) (type : MessageType) :
    commands (dispatch callbacks payload type) =
      if type = .command ∧ callbacks.onCommand ≠ 0 then [(payload, payload.length)] else [] := by
  by_cases hcommand : type = .command
  · subst hcommand
    simp only [dispatch, callback, true_and]
    by_cases hnull : callbacks.onCommand = 0 <;> simp [commands, hnull]
  · rw [if_neg (fun h => hcommand h.1)]
    cases type <;> simp only [dispatch, callback]
    all_goals first | rfl | exact absurd rfl hcommand | (split_ifs <;> rfl)

/-! ## Sending -/

/-- `polycall_protocol_send` hands this message to `net_send`, which takes all of it. -/
structure Delivers (o : ByteOrder) (host : Host) (ctx : ProtocolContextInternal)
    (type : MessageType) (payload : List UInt8) (flags : UInt16) : Prop where
  endpoint : ctx.base.endpoint ≠ 0
  nonempty : payload ≠ []
  fits : headerSize + payload.length ≤ protocolBufferSize
  sent : host.netSend (messagePacket o ctx type payload flags) = (headerSize + payload.length : ℕ)

/-- Whether a message is delivered can be decided. -/
instance (o : ByteOrder) (host : Host) (ctx : ProtocolContextInternal) (type : MessageType)
    (payload : List UInt8) (flags : UInt16) : Decidable (Delivers o host ctx type payload flags) :=
  decidable_of_iff
    (ctx.base.endpoint ≠ 0 ∧ payload ≠ [] ∧ headerSize + payload.length ≤ protocolBufferSize ∧
      host.netSend (messagePacket o ctx type payload flags) = (headerSize + payload.length : ℕ))
    ⟨fun h => ⟨h.1, h.2.1, h.2.2.1, h.2.2.2⟩, fun h => ⟨h.endpoint, h.nonempty, h.fits, h.sent⟩⟩

section Send

variable (o : ByteOrder) (host : Host) (ctx : ProtocolContextInternal) (type : MessageType)
  (flags : UInt16)

/-- A send returns true exactly when its message is delivered. -/
theorem send_ret (payload : List UInt8) :
    (send o host ctx type (some payload) flags).ret = true ↔
      Delivers o host ctx type payload flags := by
  simp only [send]
  split_ifs with hempty hfits
  · refine ⟨fun h => by simp at h, fun h => ?_⟩
    rcases hempty with hend | hlen
    · exact absurd hend h.endpoint
    · exact absurd (List.length_eq_zero_iff.1 hlen) h.nonempty
  · exact ⟨fun h => by simp at h, fun h => absurd h.fits (by omega)⟩
  · rw [not_or] at hempty
    constructor
    · intro h
      exact ⟨hempty.1, fun hnil => hempty.2 (by simp [hnil]), by omega, by simpa using h⟩
    · intro h
      simpa using h.sent

/-- A send changes at most the sequence number of the context, and calls no callback. -/
theorem send_cases (payload : Option (List UInt8)) :
    ((send o host ctx type payload flags).ctx = ctx ∨
        (send o host ctx type payload flags).ctx = ctx.countSequence) ∧
      notifications (send o host ctx type payload flags).events = [] ∧
      commands (send o host ctx type payload flags).events = [] := by
  simp only [send]
  repeat' split
  all_goals exact ⟨by simp, rfl, rfl⟩

end Send

/-! ## Transitions -/

/-- `transition_protocol_state` executes this transition on its way to `target`. -/
structure Enters (host : Host) (ctx : ProtocolContextInternal) (target : ProtocolState)
    (sm : PolyCallStateMachine) (transition : PolyCallTransition) : Prop where
  machine : ctx.base.stateMachine = some sm
  enabled : ∃ name, transitionName target = some name ∧
    Enabled host.toHost sm name transition

/-- The machine lets the session enter `target`. -/
def CanEnter (host : Host) (ctx : ProtocolContextInternal) (target : ProtocolState) : Prop :=
  ∃ sm transition, Enters host ctx target sm transition

/-- The machine of the context with this failure counter. -/
def ProtocolContextInternal.setFailures (ctx : ProtocolContextInternal) (failures : UInt32) :
    ProtocolContextInternal :=
  { ctx with base := { ctx.base with
      stateMachine := ctx.base.stateMachine.map fun sm =>
        { sm with failedTransitions := failures } } }

/-- The notification of a state change, if the state changes and somebody wants to know. -/
def notified (ctx : ProtocolContextInternal) (target : ProtocolState) :
    List (ProtocolState × ProtocolState) :=
  if target ≠ ctx.base.state ∧ ctx.callbacks.onStateChange ≠ 0 then [(ctx.base.state, target)]
  else []

section Transition

variable {host : Host} {ctx : ProtocolContextInternal} {target : ProtocolState}

/-- An entered state becomes the state of the session, and its machine takes the transition. -/
theorem transitionProtocolState_of_enters {sm : PolyCallStateMachine}
    {transition : PolyCallTransition} (h : Enters host ctx target sm transition) :
    ∃ events,
      transitionProtocolState host ctx target =
          ⟨true, (ctx.setStateMachine (sm.enter host.now transition)).setState target, events⟩ ∧
        notifications events = notified ctx target ∧ commands events = [] := by
  obtain ⟨hsm, name, hname, henabled⟩ := h
  simp only [transitionProtocolState, hsm, hname, executeTransition_of_enabled henabled]
  by_cases hsame : target = ctx.base.state
  · refine ⟨(sm.actions transition).map Event.stateAction, ?_, ?_, ?_⟩
    · simp [ProtocolContextInternal.setState, hsame]
    · simp [notified, hsame]
    · simp
  · refine ⟨(sm.actions transition).map Event.stateAction ++
      callback ctx.callbacks.onStateChange
        (.onStateChange ctx.callbacks.onStateChange ctx.base.state target), ?_, ?_, ?_⟩
    · simp [ProtocolContextInternal.setState, ProtocolContextInternal.setStateMachine, hsame]
    · simp [notified, hsame]
    · simp

/-- Without a machine there is no counter to set. -/
theorem ProtocolContextInternal.setFailures_of_none (failures : UInt32)
    (h : ctx.base.stateMachine = none) : ctx.setFailures failures = ctx := by
  obtain ⟨⟨pcCtx, stateMachine, endpoint, nextSequence, state, userData⟩, callbacks, lastError⟩ :=
    ctx
  simp only at h
  subst h
  rfl

/-- The counter of the context's machine is that of the machine. -/
theorem ProtocolContextInternal.setStateMachine_failures {sm : PolyCallStateMachine}
    (failures : UInt32) (h : ctx.base.stateMachine = some sm) :
    ctx.setStateMachine { sm with failedTransitions := failures } = ctx.setFailures failures := by
  simp [setStateMachine, setFailures, h]

/-- The counter of the context's machine can be set to what it is. -/
theorem ProtocolContextInternal.exists_setFailures (ctx : ProtocolContextInternal) :
    ∃ failures, ctx = ctx.setFailures failures := by
  cases h : ctx.base.stateMachine with
  | none => exact ⟨0, (setFailures_of_none 0 h).symm⟩
  | some sm =>
    refine ⟨sm.failedTransitions, ?_⟩
    rw [← setStateMachine_failures _ h, setStateMachine, ← h]

/-- A state that cannot be entered leaves the session where it is. -/
theorem transitionProtocolState_of_not_canEnter (h : ¬ CanEnter host ctx target) :
    ∃ failures,
      transitionProtocolState host ctx target = ⟨false, ctx.setFailures failures, []⟩ := by
  obtain ⟨same, hsame⟩ := ctx.exists_setFailures
  cases hsm : ctx.base.stateMachine with
  | none => exact ⟨same, by simp only [transitionProtocolState, hsm, ← hsame]⟩
  | some sm =>
    cases hname : transitionName target with
    | none => exact ⟨same, by simp only [transitionProtocolState, hsm, hname, ← hsame]⟩
    | some name =>
      have hno : ¬ StateMachine.CanExecute host.toHost sm name := fun ⟨t, ht⟩ =>
        h ⟨sm, t, hsm, name, hname, ht⟩
      obtain ⟨status, failures, hstatus, -, heq⟩ := executeTransition_of_not_enabled hno
      refine ⟨failures, ?_⟩
      simp only [transitionProtocolState, hsm, hname, heq, ne_eq, hstatus, not_false_eq_true,
        if_true, ProtocolContextInternal.setStateMachine_failures _ hsm, List.map_nil]

end Transition

/-! ## Steps -/

/-- Two machines in the same place: the same current state and the same transitions, over as many
states. -/
structure SamePlace (sm sm' : PolyCallStateMachine) : Prop where
  currentState : sm'.currentState = sm.currentState
  transitions : sm'.transitions = sm.transitions
  numStates : sm'.numStates = sm.numStates

/-- The session stays: its state, the place of its machine and its callbacks are what they were,
and nobody was notified. -/
structure Stays (ctx ctx' : ProtocolContextInternal) (events : List Event) : Prop where
  state : ctx'.base.state = ctx.base.state
  machine : Option.Rel SamePlace ctx.base.stateMachine ctx'.base.stateMachine
  callbacks : ctx'.callbacks = ctx.callbacks
  quiet : notifications events = []

/-- The machine of a session that stays is in the place of the one before. -/
theorem Stays.machine_of_some {ctx ctx' : ProtocolContextInternal} {events : List Event}
    {sm : PolyCallStateMachine} (h : Stays ctx ctx' events)
    (hsm : ctx.base.stateMachine = some sm) :
    ∃ sm', ctx'.base.stateMachine = some sm' ∧ SamePlace sm sm' := by
  have hmachine := h.machine
  rw [hsm] at hmachine
  generalize ctx'.base.stateMachine = machine at hmachine
  cases hmachine with
  | some hplace => exact ⟨_, rfl, hplace⟩

/-- The session moves to `target`: its machine executes the transition, its callbacks are what
they were, and the change was notified. -/
structure MovesTo (host : Host) (ctx : ProtocolContextInternal) (target : ProtocolState)
    (ctx' : ProtocolContextInternal) (events : List Event) : Prop where
  state : ctx'.base.state = target
  machine : ∃ sm transition, Enters host ctx target sm transition ∧
    ctx'.base.stateMachine = some (sm.enter host.now transition)
  callbacks : ctx'.callbacks = ctx.callbacks
  notified : notifications events = notified ctx target

/-- A call that asked for the state `asked`, if any: it moved the session there and says so, or
the session could not go there and stays. -/
inductive Follows (host : Host) (ctx : ProtocolContextInternal) (asked : Option ProtocolState) :
    Bool → ProtocolContextInternal → List Event → Prop where
  | moved {target ctx' events} (hasked : asked = some target) (hcan : CanEnter host ctx target)
      (hmoves : MovesTo host ctx target ctx' events) : Follows host ctx asked true ctx' events
  | stayed {ctx' events} (hcannot : ∀ target, asked = some target → ¬ CanEnter host ctx target)
      (hstays : Stays ctx ctx' events) : Follows host ctx asked false ctx' events

/-- Two contexts that differ at most in the sequence number and the last error. -/
structure SameSession (ctx ctx' : ProtocolContextInternal) : Prop where
  state : ctx'.base.state = ctx.base.state
  machine : ctx'.base.stateMachine = ctx.base.stateMachine
  callbacks : ctx'.callbacks = ctx.callbacks

/-- A machine is in its own place. -/
theorem SamePlace.refl (sm : PolyCallStateMachine) : SamePlace sm sm := ⟨rfl, rfl, rfl⟩

/-- A session is the same as itself. -/
theorem SameSession.refl (ctx : ProtocolContextInternal) : SameSession ctx ctx := ⟨rfl, rfl, rfl⟩

/-- Every machine is in its own place. -/
theorem rel_samePlace_self : ∀ machine : Option PolyCallStateMachine,
    Option.Rel SamePlace machine machine
  | none => .none
  | some sm => .some (SamePlace.refl sm)

/-- A call that only touches the sequence number or the last error leaves the session where it
is. -/
theorem SameSession.stays {ctx ctx' : ProtocolContextInternal} {events : List Event}
    (h : SameSession ctx ctx') (hquiet : notifications events = []) : Stays ctx ctx' events where
  state := h.state
  machine := by
    rw [h.machine]
    exact rel_samePlace_self _
  callbacks := h.callbacks
  quiet := hquiet

/-- A send touches only the sequence number. -/
theorem send_sameSession (o : ByteOrder) (host : Host) (ctx : ProtocolContextInternal)
    (type : MessageType) (payload : Option (List UInt8)) (flags : UInt16) :
    SameSession ctx (send o host ctx type payload flags).ctx := by
  rcases (send_cases o host ctx type flags payload).1 with heq | heq <;> rw [heq] <;>
    exact ⟨rfl, rfl, rfl⟩

section Cases

variable {host : Host} {ctx ctx₁ : ProtocolContextInternal} {asked : Option ProtocolState}
  {moved : Bool} {ctx' : ProtocolContextInternal} {events : List Event}

/-- A call that asks for nothing follows when it leaves the session where it is. -/
theorem SameSession.follows (h : SameSession ctx ctx') (hquiet : notifications events = []) :
    Follows host ctx none false ctx' events :=
  .stayed (by simp) (h.stays hquiet)

/-- Events that notify nobody may go before what a call does. -/
theorem Follows.quiet_append {before : List Event} (hquiet : notifications before = [])
    (h : Follows host ctx asked moved ctx' events) :
    Follows host ctx asked moved ctx' (before ++ events) := by
  cases h with
  | moved hasked hcan hmoves =>
    obtain ⟨hstate, hmachine, hcallbacks, hnotified⟩ := hmoves
    refine .moved hasked hcan ⟨hstate, hmachine, hcallbacks, ?_⟩
    rw [notifications_append, hquiet, hnotified, List.nil_append]
  | stayed hcannot hstays =>
    obtain ⟨hstate, hmachine, hcallbacks, hnone⟩ := hstays
    refine .stayed hcannot ⟨hstate, hmachine, hcallbacks, ?_⟩
    rw [notifications_append, hquiet, hnone, List.nil_append]

/-- `transition_protocol_state` from a context that carries the session of `ctx`. -/
theorem transition_follows (hsame : SameSession ctx ctx₁) (target : ProtocolState) :
    Follows host ctx (some target) (transitionProtocolState host ctx₁ target).ret
      (transitionProtocolState host ctx₁ target).ctx
      (transitionProtocolState host ctx₁ target).events := by
  by_cases hcan : CanEnter host ctx target
  · obtain ⟨sm, t, henters⟩ := hcan
    have henters₁ : Enters host ctx₁ target sm t :=
      ⟨by rw [hsame.machine, henters.machine], henters.enabled⟩
    obtain ⟨events, heq, hnotified, -⟩ := transitionProtocolState_of_enters henters₁
    rw [heq]
    refine .moved rfl ⟨sm, t, henters⟩ ⟨rfl, ⟨sm, t, henters, rfl⟩, hsame.callbacks, ?_⟩
    simp only [hnotified, notified, hsame.state, hsame.callbacks]
  · have hcan₁ : ¬ CanEnter host ctx₁ target := fun ⟨sm, t, h⟩ =>
      hcan ⟨sm, t, by rw [← hsame.machine, h.machine], h.enabled⟩
    obtain ⟨failures, heq⟩ := transitionProtocolState_of_not_canEnter hcan₁
    rw [heq]
    refine .stayed (by rintro _ ⟨⟩; exact hcan) ⟨hsame.state, ?_, hsame.callbacks, rfl⟩
    simp only [ProtocolContextInternal.setFailures, hsame.machine]
    cases ctx.base.stateMachine with
    | none => exact .none
    | some sm => exact .some ⟨rfl, rfl, rfl⟩

/-- `transition_protocol_state` does not call `on_command`. -/
theorem transition_commands (target : ProtocolState) :
    commands (transitionProtocolState host ctx target).events = [] := by
  by_cases hcan : CanEnter host ctx target
  · obtain ⟨sm, t, henters⟩ := hcan
    obtain ⟨events, heq, -, hcommands⟩ := transitionProtocolState_of_enters henters
    rw [heq, hcommands]
  · obtain ⟨failures, heq⟩ := transitionProtocolState_of_not_canEnter hcan
    rw [heq]
    rfl

end Cases

end LibPolyCall.Protocol
