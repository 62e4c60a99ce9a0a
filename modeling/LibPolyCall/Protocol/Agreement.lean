import LibPolyCall.Protocol.Steps
import LibPolyCall.Protocol.Wiring

/-!
# The views of the session state

The state of a session shows in three places: in the context, in the machine, and in what
`on_state_change` was told. On a wired machine the three agree after every call. `Agrees` is the
invariant; every call keeps it, because a session only moves with its machine
(`step_agrees`). That the notifications form a chain needs no machine: a call tells of the change
that it made, and of nothing else (`step_notifications`).
-/

namespace LibPolyCall.Protocol

open Bytes CStrings Runs
open StateMachine (PolyCallStateMachine)

/-- The session has a wired machine, and the machine is in the state that the context names. -/
def Agrees (ctx : ProtocolContextInternal) : Prop :=
  ∃ sm, ctx.base.stateMachine = some sm ∧ Wired sm ∧ sm.currentState = ctx.base.state.code

/-- The state changes that a call notifies. -/
def notifies (o : ByteOrder) (ctx : ProtocolContextInternal) (call : Host × Call) :
    List (ProtocolState × ProtocolState) :=
  notifications (step o ctx call).2.events

/-- Machines with the same transitions are wired alike. -/
theorem Wired.of_transitions {sm sm' : PolyCallStateMachine} (h : Wired sm)
    (heq : sm'.transitions = sm.transitions) : Wired sm' := by
  intro target name transition hname hfound
  refine h target name transition hname ?_
  rwa [PolyCallStateMachine.findTransition, ← heq]

section Step

variable (o : ByteOrder) (ctx : ProtocolContextInternal) (call : Host × Call)

/-- A call notifies the change that it makes to the state, if somebody wants to know, and nothing
else. -/
theorem step_notifications :
    notifies o ctx call = notified ctx (step o ctx call).1.base.state := by
  obtain ⟨moved, hfollows, -⟩ := step_follows o ctx call
  unfold notifies
  cases hfollows with
  | moved hasked hcan hmoves => rw [hmoves.notified, hmoves.state]
  | stayed hcannot hstays =>
    rw [hstays.quiet, hstays.state, notified, if_neg (fun h => h.1 rfl)]

/-- The machine and the context agree after a call as they did before it. -/
theorem step_agrees (h : Agrees ctx) : Agrees (step o ctx call).1 := by
  obtain ⟨sm, hsm, hwired, hcurrent⟩ := h
  obtain ⟨moved, hfollows, -⟩ := step_follows o ctx call
  cases hfollows with
  | moved hasked hcan hmoves =>
    obtain ⟨entered, transition, henters, hentered⟩ := hmoves.machine
    obtain rfl : sm = entered := Option.some.inj (hsm.symm.trans henters.machine)
    obtain ⟨name, hname, henabled⟩ := henters.enabled
    refine ⟨_, hentered, hwired.of_transitions rfl, ?_⟩
    -- The machine goes where the transition leads, and the wiring says that this is the target.
    rw [hmoves.state]
    exact hwired _ name transition hname henabled.found
  | stayed hcannot hstays =>
    obtain ⟨sm', hsm', hplace⟩ := hstays.machine_of_some hsm
    refine ⟨sm', hsm', hwired.of_transitions hplace.transitions, ?_⟩
    rw [hplace.currentState, hcurrent, hstays.state]

/-- The notification of a call leads from the state before it to the state after it, if somebody
wants to know. -/
theorem linked_notifies (hhandler : ctx.callbacks.onStateChange ≠ 0) :
    Linked ctx.base.state (notifies o ctx call) (step o ctx call).1.base.state := by
  rw [step_notifications]
  unfold notified
  split_ifs with hchange
  · exact ⟨rfl, rfl⟩
  · exact (not_not.1 fun hne => hchange ⟨hne, hhandler⟩).symm

end Step

/-- On a machine whose transitions lead where `transition_protocol_state` takes them to lead, and
from its initial state on: after every call of a run the context and the machine are in the same
state, the call notified the change that it made and nothing else, and the notifications of the
run form a chain from the initial state to the one that it ends in, if there is an
`on_state_change` to receive them. -/
theorem views_agree (o : ByteOrder) (ctx : ProtocolContextInternal) (sm : PolyCallStateMachine)
    (calls : List (Host × Call)) (hsm : ctx.base.stateMachine = some sm) (hwired : Wired sm)
    (hcurrent : sm.currentState = 0) (hinit : ctx.base.state = .init) :
    (∀ m ∈ moves (step o) ctx calls, ∃ sm', (step o m.1 m.2).1.base.stateMachine = some sm' ∧
        (step o m.1 m.2).1.base.state.code = sm'.currentState) ∧
      (∀ m ∈ moves (step o) ctx calls,
        notifies o m.1 m.2 =
          if (step o m.1 m.2).1.base.state ≠ m.1.base.state ∧ ctx.callbacks.onStateChange ≠ 0 then
            [(m.1.base.state, (step o m.1 m.2).1.base.state)]
          else []) ∧
      (ctx.callbacks.onStateChange ≠ 0 →
        Linked .init (outputs (step o) (notifies o) ctx calls)
          (final (step o) ctx calls).base.state) := by
  have hagrees : Agrees ctx := ⟨sm, hsm, hwired, by rw [hcurrent, hinit]; rfl⟩
  have hstates : ∀ m ∈ moves (step o) ctx calls, Agrees m.1 :=
    (final_of_step (fun s call h => step_agrees o s call h) ctx calls hagrees).1
  have hcallbacks : ∀ m ∈ moves (step o) ctx calls, m.1.callbacks = ctx.callbacks :=
    (final_of_step (fun s call h => (step_callbacks o s call).trans h) ctx calls rfl).1
  refine ⟨fun m hm => ?_, fun m hm => ?_, fun hhandler => ?_⟩
  · obtain ⟨sm', hsm', -, hcurrent'⟩ := step_agrees o m.1 m.2 (hstates m hm)
    exact ⟨sm', hsm', hcurrent'.symm⟩
  · rw [step_notifications, notified, hcallbacks m hm]
  · rw [← hinit]
    have hchain := linked_moves (P := fun s => s.callbacks.onStateChange ≠ 0)
      (C := fun _ _ => True) (fun s call h _ => by rwa [step_callbacks o s call])
      (fun s call h _ => linked_notifies o s call h) ctx calls hhandler (fun _ _ => trivial)
    exact hchain

/-- A session that is locked out of readiness at first, and goes into the error state at last. -/
def lockedOutAtFirst : List (Host × Call) :=
  [.startHandshake, .update, .lockState 3, .authenticate (some [1]), .unlockState 3, .update,
    .setError (some (CString.ofChars ['x']))].map (openHost, ·)

/-- The notifications of `lockedOutAtFirst` form a chain. -/
theorem lockedOutAtFirst_chain :
    Linked .init (outputs (step .little) (notifies .little) wiredSession lockedOutAtFirst)
      (final (step .little) wiredSession lockedOutAtFirst).base.state :=
  (views_agree .little wiredSession wiredMachine lockedOutAtFirst rfl (wired_wiring _ _ rfl)
    (by decide) rfl).2.2 (by decide)

end LibPolyCall.Protocol
