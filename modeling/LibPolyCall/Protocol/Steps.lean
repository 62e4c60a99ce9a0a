import LibPolyCall.Protocol.Calls

/-!
# One step of the session

`requested` is the abstract view of a call: the state that it asks `transition_protocol_state`
for, once its own tests and its send are passed. `step_follows` says that this is all there is to
a call: it moves the session to the state that it requests, if the machine lets it in, and leaves
the session otherwise. `on_command` is called by `polycall_protocol_process` alone
(`step_commands`). The theorems about runs are derived from these two and do not open the
operations again.
-/

namespace LibPolyCall.Protocol

open Bytes CStrings Runs

/-- The state that a call asks `transition_protocol_state` for, after its own tests and its
send. -/
def requested (o : ByteOrder) (host : Host) (ctx : ProtocolContextInternal) :
    Call → Option ProtocolState
  | .startHandshake =>
    if ctx.base.state = .init ∧
        Delivers o host ctx .handshake (handshakePayload o host) flagReliable then
      some .handshake
    else none
  | .completeHandshake => if ctx.base.state = .handshake then some .auth else none
  | .authenticate (some credentials) =>
    if Delivers o host ctx .auth credentials (flagEncrypted ||| flagReliable) then some .ready
    else none
  | .update =>
    match ctx.base.state with
    | .init =>
      if Delivers o host ctx .handshake (handshakePayload o host) flagReliable then
        some .handshake
      else none
    | .handshake => some .auth
    | .auth => some .ready
    | _ => none
  | .setError (some _) => some .error
  | _ => none

/-- The calls that return whether they moved the session. -/
def Call.reportsMove : Call → Bool
  | .startHandshake | .completeHandshake | .authenticate _ => true
  | _ => false

section Operations

variable (o : ByteOrder) (host : Host) (ctx : ProtocolContextInternal)

/-- A send followed by a transition asks for its target once the message is delivered. -/
theorem sendThenTransition_follows (type : MessageType) (payload : List UInt8) (flags : UInt16)
    (target : ProtocolState) :
    Follows host ctx (if Delivers o host ctx type payload flags then some target else none)
      (sendThenTransition o host ctx type payload flags target).ret
      (sendThenTransition o host ctx type payload flags target).ctx
      (sendThenTransition o host ctx type payload flags target).events := by
  have hsession := send_sameSession o host ctx type (some payload) flags
  obtain ⟨-, hquiet, -⟩ := send_cases o host ctx type flags (some payload)
  have hret := send_ret o host ctx type flags payload
  simp only [sendThenTransition]
  by_cases hsend : Delivers o host ctx type payload flags
  · rw [if_pos hsend, hret.2 hsend]
    exact (transition_follows hsession target).quiet_append hquiet
  · have hfalse : (send o host ctx type (some payload) flags).ret = false :=
      Bool.eq_false_iff.2 fun htrue => hsend (hret.1 htrue)
    simp only [if_neg hsend, hfalse, Bool.not_false, if_true]
    exact hsession.follows hquiet

/-- A send followed by a transition does not call `on_command`. -/
theorem sendThenTransition_commands (type : MessageType) (payload : List UInt8) (flags : UInt16)
    (target : ProtocolState) :
    commands (sendThenTransition o host ctx type payload flags target).events = [] := by
  obtain ⟨-, -, hsent⟩ := send_cases o host ctx type flags (some payload)
  simp only [sendThenTransition]
  split_ifs
  · exact hsent
  · rw [commands_append, hsent, transition_commands, List.append_nil]

/-- `polycall_protocol_start_handshake` asks for the handshake in the initial state, once its
message is delivered. -/
theorem startHandshake_follows :
    Follows host ctx (requested o host ctx .startHandshake) (startHandshake o host ctx).ret
      (startHandshake o host ctx).ctx (startHandshake o host ctx).events := by
  by_cases hstate : ctx.base.state = .init
  · simpa only [startHandshake, requested, hstate, ne_eq, not_true_eq_false, if_false, true_and]
      using sendThenTransition_follows o host ctx .handshake (handshakePayload o host) flagReliable
        .handshake
  · simpa only [startHandshake, requested, hstate, ne_eq, not_false_eq_true, if_true, false_and,
      if_false] using (SameSession.refl ctx).follows rfl

/-- `polycall_protocol_complete_handshake` asks for authentication in the handshake. -/
theorem completeHandshake_follows :
    Follows host ctx (requested o host ctx .completeHandshake) (completeHandshake host ctx).ret
      (completeHandshake host ctx).ctx (completeHandshake host ctx).events := by
  by_cases hstate : ctx.base.state = .handshake
  · simpa only [completeHandshake, requested, hstate, ne_eq, not_true_eq_false, if_false, if_true]
      using transition_follows (SameSession.refl ctx) .auth
  · simpa only [completeHandshake, requested, hstate, ne_eq, not_false_eq_true, if_true, if_false]
      using (SameSession.refl ctx).follows rfl

/-- `polycall_protocol_authenticate` asks for readiness in every state, once its credentials are
delivered. -/
theorem authenticate_follows (credentials : Option (List UInt8)) :
    Follows host ctx (requested o host ctx (.authenticate credentials))
      (authenticate o host ctx credentials).ret (authenticate o host ctx credentials).ctx
      (authenticate o host ctx credentials).events := by
  cases credentials with
  | none => exact (SameSession.refl ctx).follows rfl
  | some credentials =>
    by_cases hempty : credentials.length = 0
    · have hnot : ¬ Delivers o host ctx .auth credentials (flagEncrypted ||| flagReliable) :=
        fun h => h.nonempty (List.length_eq_zero_iff.1 hempty)
      simpa only [authenticate, requested, hempty, if_true, hnot, if_false]
        using (SameSession.refl ctx).follows rfl
    · simpa only [authenticate, requested, hempty, if_false]
        using sendThenTransition_follows o host ctx .auth credentials
          (flagEncrypted ||| flagReliable) .ready

/-- What `polycall_protocol_update` does with a session that has no machine. -/
theorem update_of_isNone (h : ctx.base.stateMachine.isNone = true) :
    update o host ctx = ⟨(), ctx, []⟩ := by
  simp only [update, canTransition, h, if_true, Bool.false_eq_true, if_false]
  split <;> rfl

/-- `polycall_protocol_update` asks for the next state before readiness, and for nothing from
there on. -/
theorem update_follows :
    ∃ moved, Follows host ctx (requested o host ctx .update) moved (update o host ctx).ctx
      (update o host ctx).events := by
  by_cases hnone : ctx.base.stateMachine.isNone = true
  · -- Without a machine no state can be entered.
    refine ⟨false, .stayed (fun target _ ⟨sm, t, henters⟩ => ?_) ?_⟩
    · simp [henters.machine] at hnone
    · rw [update_of_isNone o host ctx hnone]
      exact (SameSession.refl ctx).stays rfl
  · cases hstate : ctx.base.state with
    | init =>
      have h := startHandshake_follows o host ctx
      simp only [requested, hstate, true_and] at h
      refine ⟨(startHandshake o host ctx).ret, ?_⟩
      simpa only [update, canTransition, requested, hstate, hnone, Bool.false_eq_true, if_false,
        decide_true, if_true, Outcome.void] using h
    | handshake =>
      refine ⟨(transitionProtocolState host ctx .auth).ret, ?_⟩
      simpa only [update, canTransition, requested, hstate, hnone, Bool.false_eq_true, if_false,
        decide_true, if_true, Outcome.void] using transition_follows (SameSession.refl ctx) .auth
    | auth =>
      refine ⟨(transitionProtocolState host ctx .ready).ret, ?_⟩
      simpa only [update, canTransition, requested, hstate, hnone, Bool.false_eq_true, if_false,
        decide_true, if_true, Outcome.void] using transition_follows (SameSession.refl ctx) .ready
    | ready | error | closed =>
      refine ⟨false, ?_⟩
      simpa only [update, requested, hstate] using (SameSession.refl ctx).follows rfl

/-- `polycall_protocol_start_handshake` does not call `on_command`. -/
theorem startHandshake_commands : commands (startHandshake o host ctx).events = [] := by
  simp only [startHandshake]
  split_ifs
  · rfl
  · exact sendThenTransition_commands _ _ _ _ _ _ _

/-- `polycall_protocol_update` does not call `on_command`. -/
theorem update_commands : commands (update o host ctx).events = [] := by
  simp only [update]
  repeat' split
  all_goals first | rfl | exact startHandshake_commands _ _ _ | exact transition_commands _

/-- `polycall_protocol_process` leaves the context alone, and notifies nobody of a state
change. -/
theorem process_quiet (data : Option (List UInt8)) :
    (process o ctx data).ctx = ctx ∧ notifications (process o ctx data).events = [] := by
  cases data with
  | none => exact ⟨rfl, rfl⟩
  | some data =>
    rcases process_cases ctx o data with ⟨type, -, heq⟩ | ⟨-, texts, heq⟩
    · rw [heq]
      exact ⟨rfl, notifications_dispatch _ _ _⟩
    · rw [heq]
      exact ⟨rfl, notifications_errorText texts⟩

/-- `polycall_protocol_process` calls `on_command` on the accepted commands. -/
theorem process_commands (data : List UInt8) :
    commands (process o ctx (some data)).events ≠ [] ↔
      Accepted o data .command ∧ ctx.callbacks.onCommand ≠ 0 := by
  rcases process_cases ctx o data with ⟨type, h, heq⟩ | ⟨hno, texts, heq⟩
  · rw [heq, commands_dispatch]
    constructor
    · intro hne
      by_cases hcommand : type = .command ∧ ctx.callbacks.onCommand ≠ 0
      · exact ⟨hcommand.1 ▸ h, hcommand.2⟩
      · exact absurd (if_neg hcommand) hne
    · rintro ⟨hcommand, hne⟩
      simp [h.unique hcommand, hne]
  · rw [heq, commands_errorText]
    exact ⟨fun hne => absurd rfl hne, fun h => absurd h.1 (hno _)⟩

/-- `polycall_protocol_set_error` asks for the error state in every state, for any text. -/
theorem setError_follows (error : Option CString) :
    ∃ moved, Follows host ctx (requested o host ctx (.setError error)) moved
      (setError host ctx error).ctx (setError host ctx error).events := by
  cases error with
  | none => exact ⟨false, (SameSession.refl ctx).follows rfl⟩
  | some error =>
    have hsame : SameSession ctx { ctx with lastError := ctx.lastError.print error } :=
      ⟨rfl, rfl, rfl⟩
    exact ⟨_, transition_follows hsame .error⟩

/-- A lock set or cleared in the session's machine leaves the session where it is. -/
theorem setMachineLock_follows (locked : Bool) (stateId : UInt32) :
    Follows host ctx none false (setMachineLock locked host ctx stateId).1
      (setMachineLock locked host ctx stateId).2.events := by
  simp only [setMachineLock]
  cases hsm : ctx.base.stateMachine with
  | none => exact (SameSession.refl ctx).follows rfl
  | some sm =>
    refine .stayed (by simp) ⟨rfl, ?_, rfl, rfl⟩
    rw [hsm]
    refine .some ?_
    simp only [StateMachine.setLock]
    split_ifs
    · exact SamePlace.refl sm
    · exact SamePlace.refl sm
    · exact ⟨rfl, rfl, by
        simp [StateMachine.PolyCallStateMachine.numStates,
          StateMachine.PolyCallStateMachine.modifyState]⟩

end Operations

/-! ## Steps -/

section Step

variable (o : ByteOrder) (ctx : ProtocolContextInternal) (call : Host × Call)

/-- A call moves the session to the state that it requests, if the machine lets it in, and leaves
it otherwise; `start_handshake`, `complete_handshake` and `authenticate` say which. -/
theorem step_follows :
    ∃ moved,
      Follows call.1 ctx (requested o call.1 ctx call.2) moved (step o ctx call).1
        (step o ctx call).2.events ∧
      (call.2.reportsMove = true → (step o ctx call).2.ret = some moved) := by
  obtain ⟨host, call⟩ := call
  cases call with
  | startHandshake => exact ⟨_, startHandshake_follows o host ctx, fun _ => rfl⟩
  | completeHandshake => exact ⟨_, completeHandshake_follows o host ctx, fun _ => rfl⟩
  | authenticate credentials => exact ⟨_, authenticate_follows o host ctx credentials, fun _ => rfl⟩
  | update =>
    obtain ⟨moved, h⟩ := update_follows o host ctx
    exact ⟨moved, h, by simp [Call.reportsMove]⟩
  | process data =>
    obtain ⟨hctx, hquiet⟩ := process_quiet o ctx data
    refine ⟨false, ?_, by simp [Call.reportsMove]⟩
    refine SameSession.follows ?_ hquiet
    simpa only [step, Outcome.returned, hctx] using SameSession.refl ctx
  | setError error =>
    obtain ⟨moved, h⟩ := setError_follows o host ctx error
    exact ⟨moved, h, by simp [Call.reportsMove]⟩
  | send type payload flags =>
    obtain ⟨-, hquiet, -⟩ := send_cases o host ctx type flags payload
    exact ⟨false, (send_sameSession o host ctx type payload flags).follows hquiet,
      by simp [Call.reportsMove]⟩
  | lockState stateId =>
    exact ⟨_, setMachineLock_follows host ctx true stateId, by simp [Call.reportsMove]⟩
  | unlockState stateId =>
    exact ⟨_, setMachineLock_follows host ctx false stateId, by simp [Call.reportsMove]⟩

/-- The state after a call is the one that it requests, if the machine lets the session in, and
else the state before. -/
theorem step_state :
    (∃ target, requested o call.1 ctx call.2 = some target ∧ CanEnter call.1 ctx target ∧
        (step o ctx call).1.base.state = target) ∨
      ((∀ target, requested o call.1 ctx call.2 = some target → ¬ CanEnter call.1 ctx target) ∧
        (step o ctx call).1.base.state = ctx.base.state) := by
  obtain ⟨moved, hfollows, -⟩ := step_follows o ctx call
  cases hfollows with
  | moved hasked hcan hmoves => exact .inl ⟨_, hasked, hcan, hmoves.state⟩
  | stayed hcannot hstays => exact .inr ⟨hcannot, hstays.state⟩

/-- A call keeps the callbacks of the session. -/
theorem step_callbacks : (step o ctx call).1.callbacks = ctx.callbacks := by
  obtain ⟨moved, hfollows, -⟩ := step_follows o ctx call
  cases hfollows with
  | moved hasked hcan hmoves => exact hmoves.callbacks
  | stayed hcannot hstays => exact hstays.callbacks

/-- Only `polycall_protocol_process` calls `on_command`. -/
theorem step_commands (h : ∀ data, call.2 ≠ .process data) :
    commands (step o ctx call).2.events = [] := by
  obtain ⟨host, call⟩ := call
  cases call with
  | startHandshake => exact startHandshake_commands o host ctx
  | completeHandshake =>
    simp only [step, completeHandshake]
    split_ifs
    · rfl
    · exact transition_commands _
  | authenticate credentials =>
    simp only [step, authenticate]
    repeat' split
    all_goals first | rfl | exact sendThenTransition_commands _ _ _ _ _ _ _
  | update => exact update_commands o host ctx
  | process data => exact absurd rfl (h data)
  | setError error =>
    cases error with
    | none => rfl
    | some error => exact transition_commands _
  | send type payload flags => exact (send_cases o host ctx type flags payload).2.2
  | lockState stateId | unlockState stateId =>
    simp only [step, setMachineLock]
    split <;> rfl

end Step

end LibPolyCall.Protocol
