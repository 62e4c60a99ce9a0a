import LibPolyCall.Protocol.Steps
import LibPolyCall.Protocol.Wiring

/-!
# The permission table

`polycall_protocol_can_transition` is the table of the permitted changes of state, `Permits` in the
abstract. The calls that move the session consult it or test the state themselves, except for two:
`polycall_protocol_authenticate` and `polycall_protocol_set_error` go to their state from any
other. `SkipsTable` is such a call in a state from which the table does not permit it, and the
changes of state in a run are permitted exactly when it has no such call
(`changes_permitted_iff`).
-/

namespace LibPolyCall.Protocol

open Bytes CStrings Runs

/-- The permitted changes of the protocol state. -/
inductive Permits : ProtocolState → ProtocolState → Prop where
  | handshake : Permits .init .handshake
  | auth : Permits .handshake .auth
  | ready : Permits .auth .ready
  | error : Permits .ready .error
  | closed : Permits .ready .closed
  | closedAfterError : Permits .error .closed

/-- `polycall_protocol_can_transition` is the table, for a session that has a machine. -/
theorem canTransition_iff {ctx : ProtocolContextInternal} {target : ProtocolState} :
    canTransition ctx target = true ↔
      ctx.base.stateMachine.isSome = true ∧ Permits ctx.base.state target := by
  unfold canTransition
  cases ctx.base.stateMachine with
  | none => simp
  | some sm =>
    simp only [Option.isNone_some, Bool.false_eq_true, if_false, Option.isSome_some, true_and]
    generalize ctx.base.state = state
    constructor
    · intro h
      cases state <;> cases target <;> simp at h <;> constructor
    · rintro ⟨⟩ <;> simp

/-- A call that goes to a state which the table does not permit from the one that the session
is in. -/
def SkipsTable (o : ByteOrder) (ctx : ProtocolContextInternal) (call : Host × Call) : Prop :=
  match call.2 with
  | .authenticate (some credentials) =>
    Delivers o call.1 ctx .auth credentials (flagEncrypted ||| flagReliable) ∧
      CanEnter call.1 ctx .ready ∧ ctx.base.state ≠ .auth ∧ ctx.base.state ≠ .ready
  | .setError (some _) =>
    CanEnter call.1 ctx .error ∧ ctx.base.state ≠ .ready ∧ ctx.base.state ≠ .error
  | _ => False

section Step

variable {o : ByteOrder} {ctx : ProtocolContextInternal} {call : Host × Call}

/-- A call that skips the table requests a state that is neither the session's own nor permitted
from it, and the machine lets the session in. -/
theorem SkipsTable.requests (h : SkipsTable o ctx call) :
    ∃ target, requested o call.1 ctx call.2 = some target ∧ CanEnter call.1 ctx target ∧
      target ≠ ctx.base.state ∧ ¬ Permits ctx.base.state target := by
  obtain ⟨host, call⟩ := call
  unfold SkipsTable at h
  split at h
  · next credentials heq =>
    obtain rfl : call = .authenticate (some credentials) := heq
    obtain ⟨hdelivers, hcan, hauth, hready⟩ := h
    refine ⟨.ready, if_pos hdelivers, hcan, hready.symm, fun hpermits => ?_⟩
    -- The table permits readiness in authentication only.
    generalize ctx.base.state = state at *
    cases hpermits
    exact hauth rfl
  · next error heq =>
    obtain rfl : call = .setError (some error) := heq
    obtain ⟨hcan, hready, herror⟩ := h
    refine ⟨.error, rfl, hcan, herror.symm, fun hpermits => ?_⟩
    -- It permits the error state in readiness only.
    generalize ctx.base.state = state at *
    cases hpermits
    exact hready rfl
  · exact h.elim

/-- A state that a call requests and the machine lets the session into is the session's own,
permitted, or reached past the table. -/
theorem permits_of_requested {target : ProtocolState}
    (hrequested : requested o call.1 ctx call.2 = some target)
    (hcan : CanEnter call.1 ctx target) (hskips : ¬ SkipsTable o ctx call) :
    target = ctx.base.state ∨ Permits ctx.base.state target := by
  obtain ⟨host, call⟩ := call
  -- Only the credentials and the errors go by no test of the state.
  cases call with
  | startHandshake =>
    simp only [requested] at hrequested
    split_ifs at hrequested with h
    cases hrequested
    rw [h.1]
    exact .inr .handshake
  | completeHandshake =>
    simp only [requested] at hrequested
    split_ifs at hrequested with h
    cases hrequested
    rw [h]
    exact .inr .auth
  | authenticate credentials =>
    cases credentials with
    | none => cases hrequested
    | some credentials =>
      simp only [requested] at hrequested
      split_ifs at hrequested with hdelivers
      cases hrequested
      -- From other states than these two, accepted credentials skip the table.
      by_cases hready : ctx.base.state = .ready
      · exact .inl hready.symm
      by_cases hauth : ctx.base.state = .auth
      · rw [hauth]
        exact .inr .ready
      · exact absurd ⟨hdelivers, hcan, hauth, hready⟩ hskips
  | update =>
    -- `polycall_protocol_update` requests the next state of the table.
    cases hstate : ctx.base.state with
    | init =>
      simp only [requested, hstate] at hrequested
      split_ifs at hrequested
      cases hrequested
      exact .inr .handshake
    | handshake =>
      simp only [requested, hstate] at hrequested
      cases hrequested
      exact .inr .auth
    | auth =>
      simp only [requested, hstate] at hrequested
      cases hrequested
      exact .inr .ready
    | _ => simp [requested, hstate] at hrequested
  | setError error =>
    cases error with
    | none => cases hrequested
    | some error =>
      cases hrequested
      by_cases herror : ctx.base.state = .error
      · exact .inl herror.symm
      -- From other states than these two, an error skips the table.
      by_cases hready : ctx.base.state = .ready
      · rw [hready]
        exact .inr .error
      · exact absurd ⟨hcan, hready, herror⟩ hskips
  | _ => cases hrequested

/-- A call changes the state as the table permits exactly when it does not skip the table. -/
theorem change_permitted_iff :
    ((step o ctx call).1.base.state ≠ ctx.base.state →
        canTransition ctx (step o ctx call).1.base.state = true) ↔ ¬ SkipsTable o ctx call := by
  constructor
  · intro h hskips
    obtain ⟨target, hrequested, hcan, hne, hforbidden⟩ := hskips.requests
    rcases step_state o ctx call with
      ⟨entered, hentered, -, hstate⟩ | ⟨hcannot, -⟩
    · obtain rfl : target = entered := Option.some.inj (hrequested.symm.trans hentered)
      rw [hstate] at h
      exact hforbidden (canTransition_iff.1 (h hne)).2
    · exact hcannot target hrequested hcan
  · intro hskips hchanges
    rcases step_state o ctx call with
      ⟨target, hrequested, hcan, hstate⟩ | ⟨-, hstate⟩
    · obtain ⟨sm, transition, henters⟩ := id hcan
      rw [hstate] at hchanges ⊢
      refine canTransition_iff.2 ⟨by rw [henters.machine]; rfl, ?_⟩
      exact (permits_of_requested hrequested hcan hskips).resolve_left hchanges
    · exact absurd hstate hchanges

end Step

/-- Every change of state in a run is one that `polycall_protocol_can_transition` permits, exactly
when no call of the run skips its table. -/
theorem changes_permitted_iff (o : ByteOrder) (ctx : ProtocolContextInternal)
    (calls : List (Host × Call)) :
    (∀ m ∈ moves (step o) ctx calls, (step o m.1 m.2).1.base.state ≠ m.1.base.state →
        canTransition m.1 (step o m.1 m.2).1.base.state = true) ↔
      ∀ m ∈ moves (step o) ctx calls, ¬ SkipsTable o m.1 m.2 := by
  simp only [change_permitted_iff]

/-- Credentials take a wired session from its initial state to readiness, which the table does not
permit. -/
theorem authenticate_from_init :
    wiredSession.base.state = .init ∧
      (step .little wiredSession (openHost, .authenticate (some [1]))).1.base.state = .ready ∧
      canTransition wiredSession .ready = false := by
  refine ⟨rfl, ?_, rfl⟩
  decide

end LibPolyCall.Protocol
