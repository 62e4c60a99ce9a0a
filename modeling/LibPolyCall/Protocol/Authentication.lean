import LibPolyCall.Protocol.Steps
import LibPolyCall.Protocol.Wiring

/-!
# Authentication

What stands between a session and its authenticated state, and between a command and `on_command`.

`polycall_protocol_authenticate` is not the only way to readiness: `polycall_protocol_update`
takes a session from authentication to readiness without credentials. A run in which it never does
is authenticated only by `polycall_protocol_authenticate` (`authenticated_by_authenticate`).

`polycall_protocol_process` does not look at the state of the session. Commands are handed over in
authenticated states only, and commands received earlier make no difference, in the runs in which
none is received earlier that `on_command` would be called with (`commands_when_authenticated`).
-/

namespace LibPolyCall.Protocol

open Bytes CStrings Runs

/-! ## The way to readiness -/

/-- An update that takes the session from authentication to readiness. -/
def SelfAuthenticates (ctx : ProtocolContextInternal) (call : Host × Call) : Prop :=
  call.2 = .update ∧ ctx.base.state = .auth ∧ CanEnter call.1 ctx .ready

/-- A session is authenticated in the ready state. -/
theorem isAuthenticated_iff (ctx : ProtocolContextInternal) :
    isAuthenticated ctx = true ↔ ctx.base.state = .ready := by
  unfold isAuthenticated
  cases ctx.base.state <;> decide

/-- Only an update in authentication and `polycall_protocol_authenticate` ask for readiness. -/
theorem requested_ready {o : ByteOrder} {host : Host} {ctx : ProtocolContextInternal} {call : Call}
    (h : requested o host ctx call = some .ready) :
    (call = .update ∧ ctx.base.state = .auth) ∨
      ∃ credentials, call = .authenticate credentials := by
  cases call with
  | authenticate credentials => exact .inr ⟨credentials, rfl⟩
  | update =>
    cases hstate : ctx.base.state with
    | auth => exact .inl ⟨rfl, rfl⟩
    | _ => simp [requested, hstate] at h
  | setError error => cases error <;> simp [requested] at h
  | _ => simp [requested] at h

/-- The step that authenticates a session is a successful `polycall_protocol_authenticate`, or the
update that does without. -/
theorem step_authenticates (o : ByteOrder) (ctx : ProtocolContextInternal) (call : Host × Call)
    (hbefore : ¬ isAuthenticated ctx = true) (hafter : isAuthenticated (step o ctx call).1 = true) :
    SelfAuthenticates ctx call ∨
      ∃ credentials, call.2 = .authenticate credentials ∧
        (step o ctx call).2.ret = some true := by
  rw [isAuthenticated_iff] at hbefore hafter
  obtain ⟨moved, hfollows, hreports⟩ := step_follows o ctx call
  cases hfollows with
  | moved hasked hcan hmoves =>
    -- The call moved the session, and to readiness.
    obtain rfl : _ = ProtocolState.ready := hmoves.state.symm.trans hafter
    rcases requested_ready hasked with ⟨hupdate, hauth⟩ | ⟨credentials, hcall⟩
    · exact .inl ⟨hupdate, hauth, hcan⟩
    · exact .inr ⟨credentials, hcall, hreports (by rw [hcall]; rfl)⟩
  | stayed hcannot hstays => exact absurd (hstays.state.symm.trans hafter) hbefore

/-- In a run whose updates never take the session from authentication to readiness, a session that
starts in its initial state and ends authenticated went through a
`polycall_protocol_authenticate` that returned true. -/
theorem authenticated_by_authenticate (o : ByteOrder) (ctx : ProtocolContextInternal)
    (calls : List (Host × Call)) (hinit : ctx.base.state = .init)
    (hupdates : ∀ m ∈ moves (step o) ctx calls, ¬ SelfAuthenticates m.1 m.2)
    (hfinal : isAuthenticated (final (step o) ctx calls) = true) :
    ∃ m ∈ moves (step o) ctx calls, ∃ credentials, m.2.2 = .authenticate credentials ∧
      (step o m.1 m.2).2.ret = some true := by
  have hstart : ¬ isAuthenticated ctx = true := by
    rw [isAuthenticated_iff, hinit]
    decide
  obtain ⟨m, hm, hbefore, hafter⟩ :=
    exists_move_of_final (P := fun ctx => isAuthenticated ctx = true) ctx calls hstart hfinal
  rcases step_authenticates o m.1 m.2 hbefore hafter with hself | hcall
  · exact absurd hself (hupdates m hm)
  · exact ⟨m, hm, hcall⟩

/-- A session that goes through the handshake and authenticates. -/
def authentication : List (Host × Call) :=
  [.startHandshake, .completeHandshake, .authenticate (some [1])].map (openHost, ·)

/-- The run of `authentication` from a wired session is such a run. -/
theorem authentication_authenticates :
    ∃ m ∈ moves (step .little) wiredSession authentication,
      ∃ credentials, m.2.2 = .authenticate credentials ∧
        (step .little m.1 m.2).2.ret = some true :=
  authenticated_by_authenticate .little wiredSession authentication rfl
    (fun m hm hself => by
      obtain ⟨ctx, host, call⟩ := m
      obtain rfl : call = .update := hself.1
      have hcall := snd_mem_of_mem_moves hm
      simp [authentication] at hcall)
    (by decide)

/-- Three updates authenticate a wired session, without `polycall_protocol_authenticate`. -/
theorem updates_authenticate :
    wiredSession.base.state = .init ∧
      isAuthenticated
        (final (step .little) wiredSession (List.replicate 3 (openHost, .update))) = true ∧
      ¬ ∃ m ∈ moves (step .little) wiredSession (List.replicate 3 (openHost, .update)),
        ∃ credentials, m.2.2 = .authenticate credentials ∧
          (step .little m.1 m.2).2.ret = some true := by
  refine ⟨rfl, by decide, ?_⟩
  rintro ⟨m, hm, credentials, hcall, -⟩
  have hupdate := List.eq_of_mem_replicate (snd_mem_of_mem_moves hm)
  rw [hupdate] at hcall
  cases hcall

/-! ## Commands -/

/-- The calls of `on_command` in a run. -/
def invocations (o : ByteOrder) (ctx : ProtocolContextInternal) (calls : List (Host × Call)) :
    List (List UInt8 × ℕ) :=
  outputs (step o) (fun ctx call => commands (step o ctx call).2.events) ctx calls

/-- A received message whose type is that of a command. -/
def isCommandMessage (o : ByteOrder) : Call → Bool
  | .process (some data) =>
    headerSize ≤ data.length && (MessageHeader.read o data).type = MessageType.command.code
  | _ => false

/-- A command received before the session is authenticated. -/
def isEarlyCommand (o : ByteOrder) (ctx : ProtocolContextInternal) (call : Host × Call) : Bool :=
  isCommandMessage o call.2 && !isAuthenticated ctx

/-- A call that hands a command to `on_command`, if at all, in an authenticated session. -/
def AwaitsAuthentication (o : ByteOrder) (ctx : ProtocolContextInternal) (call : Host × Call) :
    Prop :=
  ∀ data, call.2 = .process (some data) → Accepted o data .command →
    ctx.callbacks.onCommand ≠ 0 → isAuthenticated ctx = true

section Commands

variable {o : ByteOrder} {ctx : ProtocolContextInternal} {call : Host × Call}

/-- A call waits for authentication when it only invokes `on_command` in an authenticated
session. -/
theorem awaitsAuthentication_iff :
    (commands (step o ctx call).2.events ≠ [] → isAuthenticated ctx = true) ↔
      AwaitsAuthentication o ctx call := by
  obtain ⟨host, call⟩ := call
  constructor
  · rintro h data rfl haccepted hne
    exact h ((process_commands o ctx data).2 ⟨haccepted, hne⟩)
  · intro h hinvoked
    by_cases hprocess : ∃ data, call = .process data
    · obtain ⟨data?, rfl⟩ := hprocess
      cases data? with
      | none => exact absurd rfl hinvoked
      | some data =>
        obtain ⟨haccepted, hne⟩ := (process_commands o ctx data).1 hinvoked
        exact h data rfl haccepted hne
    · exact absurd (step_commands o ctx (host, call) (not_exists.1 hprocess)) hinvoked

/-- An early command changes nothing and invokes nothing, if calls wait for authentication. -/
theorem AwaitsAuthentication.early (h : AwaitsAuthentication o ctx call)
    (hearly : isEarlyCommand o ctx call = true) :
    (step o ctx call).1 = ctx ∧ commands (step o ctx call).2.events = [] := by
  obtain ⟨hcommand, hbefore⟩ := Bool.and_eq_true_iff.1 hearly
  rw [Bool.not_eq_true', ← Bool.not_eq_true] at hbefore
  refine ⟨?_, not_not.1 fun hinvoked => hbefore (awaitsAuthentication_iff.2 h hinvoked)⟩
  obtain ⟨host, call⟩ := call
  unfold isCommandMessage at hcommand
  split at hcommand
  · next data heq =>
    obtain rfl : call = .process (some data) := heq
    exact (process_quiet o ctx (some data)).1
  · cases hcommand

end Commands

/-- The runs that invoke `on_command` in authenticated sessions only are those whose calls wait for
authentication; and two such runs that differ only in early commands invoke it alike. -/
theorem commands_when_authenticated (o : ByteOrder) (ctx : ProtocolContextInternal)
    (calls : List (Host × Call)) :
    ((∀ m ∈ moves (step o) ctx calls,
        commands (step o m.1 m.2).2.events ≠ [] → isAuthenticated m.1 = true) ↔
      ∀ m ∈ moves (step o) ctx calls, AwaitsAuthentication o m.1 m.2) ∧
    ∀ calls', (∀ m ∈ moves (step o) ctx calls, AwaitsAuthentication o m.1 m.2) →
      (∀ m ∈ moves (step o) ctx calls', AwaitsAuthentication o m.1 m.2) →
      purge (isEarlyCommand o) (step o) ctx calls = purge (isEarlyCommand o) (step o) ctx calls' →
      invocations o ctx calls = invocations o ctx calls' := by
  have hpurge : ∀ calls, (∀ m ∈ moves (step o) ctx calls, AwaitsAuthentication o m.1 m.2) →
      invocations o ctx (purge (isEarlyCommand o) (step o) ctx calls) =
        invocations o ctx calls := fun calls h =>
    outputs_purge ctx calls fun m hm hearly => (h m hm).early hearly
  constructor
  · simp only [awaitsAuthentication_iff]
  · intro calls' h h' heq
    rw [← hpurge calls h, ← hpurge calls' h', heq]

/-- A command that reaches a wired session in its initial state. -/
def earlyCommand : List (Host × Call) :=
  [(openHost, .process (some (messagePacket .little wiredSession .command [1] 0)))]

/-- `on_command` is invoked with a command that reaches a session in its initial state, and would
not be without it. -/
theorem early_command_invoked :
    isAuthenticated wiredSession = false ∧
      invocations .little wiredSession earlyCommand = [([1], 1)] ∧
      purge (isEarlyCommand .little) (step .little) wiredSession earlyCommand = [] ∧
      invocations .little wiredSession [] = [] := by
  refine ⟨rfl, ?_, ?_, rfl⟩ <;> decide

end LibPolyCall.Protocol
