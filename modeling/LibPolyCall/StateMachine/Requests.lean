import LibPolyCall.StateMachine.Changes

/-!
# The whole interface of a machine

`Op` lists the calls that a run is made of. A request is one of them or one of the remaining calls
on a machine, which change nothing but a counter: the check of a state's integrity, the readers of
its version and of its diagnostics, and the call for a snapshot without a place to put it.

A request that fails leaves the machine as it was, up to one count of the failure, and runs no
callback (`handle_failed`).
-/

namespace LibPolyCall.StateMachine

open Bytes CStrings Runs

/-- A call on a machine, with its arguments. -/
inductive Request where
  | op (op : Op)
  /-- `create_state_snapshot` with `NULL` for the snapshot. -/
  | createStateSnapshotNull (stateId : UInt32)
  | verifyStateIntegrity (stateId : UInt32)
  | getStateVersion (stateId : UInt32) (version : Bool)
  | getStateDiagnostics (stateId : UInt32) (diagnostics : Bool)

/-- What a request leaves behind: the machine, the status, and the state actions called. -/
structure Handled where
  machine : PolyCallStateMachine
  status : Status
  called : List Ptr

/-- One request to the machine. -/
def handle (o : ByteOrder) (sm : PolyCallStateMachine) (host : Host) : Request → Handled
  | .op op =>
    let r := step o sm (host, op)
    ⟨r.1, r.2.status, r.2.called⟩
  | .createStateSnapshotNull _ => ⟨sm, .errorNotInitialized, []⟩
  | .verifyStateIntegrity stateId =>
    let r := verifyStateIntegrity o host sm stateId
    ⟨r.2, r.1, []⟩
  | .getStateVersion stateId version => ⟨sm, (getStateVersion sm stateId version).1, []⟩
  | .getStateDiagnostics stateId diagnostics =>
    ⟨sm, (getStateDiagnostics sm stateId diagnostics).1, []⟩

/-- A check of integrity leaves the machine as it was, or fails and counts a violation. -/
theorem verifyStateIntegrity_machine (o : ByteOrder) (host : Host) (sm : PolyCallStateMachine)
    (stateId : UInt32) :
    (verifyStateIntegrity o host sm stateId).2 = sm ∨
      (verifyStateIntegrity o host sm stateId).2 = sm.countViolation := by
  unfold verifyStateIntegrity
  dsimp only
  split_ifs
  · exact .inl rfl
  · exact .inl rfl
  · exact .inr rfl
  · exact .inr rfl
  · exact .inl rfl

/-- A failing request runs no state action, and leaves the machine as it was, up to one count of
the failure. -/
theorem handle_failed (o : ByteOrder) (sm : PolyCallStateMachine) (host : Host)
    (request : Request) (h : (handle o sm host request).status ≠ .success) :
    (handle o sm host request).called = [] ∧
      ((handle o sm host request).machine = sm ∨
        (handle o sm host request).machine = sm.countFailure ∨
        (handle o sm host request).machine = sm.countViolation) := by
  cases request with
  | op op =>
    simp only [handle] at h ⊢
    have hchange := step_change o sm (host, op)
    generalize step o sm (host, op) = r at h hchange ⊢
    cases hchange with
    | failed status failures hstatus hfailures =>
      refine ⟨rfl, ?_⟩
      rcases hfailures with rfl | rfl
      · exact .inl rfl
      · exact .inr (.inl rfl)
    | _ => exact absurd rfl h
  | createStateSnapshotNull stateId => exact ⟨rfl, .inl rfl⟩
  | verifyStateIntegrity stateId =>
    refine ⟨rfl, ?_⟩
    rcases verifyStateIntegrity_machine o host sm stateId with heq | heq
    · exact .inl heq
    · exact .inr (.inr heq)
  | getStateVersion stateId version => exact ⟨rfl, .inl rfl⟩
  | getStateDiagnostics stateId diagnostics => exact ⟨rfl, .inl rfl⟩

/-- Failing calls are atomic: the current state, the registered states and the registered
transitions are exactly as before, no state action has run, and at most one of the two counters
has grown, by one. -/
theorem failing_call_atomic (o : ByteOrder) (sm : PolyCallStateMachine) (host : Host)
    (request : Request) (h : (handle o sm host request).status ≠ .success) :
    let sm' := (handle o sm host request).machine
    sm'.currentState = sm.currentState ∧ sm'.numStates = sm.numStates ∧
      sm'.numTransitions = sm.numTransitions ∧ sm'.states = sm.states ∧
      sm'.transitions = sm.transitions ∧ (handle o sm host request).called = [] ∧
      ((sm'.failedTransitions = sm.failedTransitions ∧
          sm'.integrityViolations = sm.integrityViolations) ∨
        (sm'.failedTransitions = sm.failedTransitions + 1 ∧
          sm'.integrityViolations = sm.integrityViolations) ∨
        (sm'.failedTransitions = sm.failedTransitions ∧
          sm'.integrityViolations = sm.integrityViolations + 1)) := by
  obtain ⟨hcalled, hmachine⟩ := handle_failed o sm host request h
  intro sm'
  have hsm' : sm' = sm ∨ sm' = sm.countFailure ∨ sm' = sm.countViolation := hmachine
  rcases hsm' with hsm' | hsm' | hsm'
  · rw [hsm']
    exact ⟨rfl, rfl, rfl, rfl, rfl, hcalled, .inl ⟨rfl, rfl⟩⟩
  · rw [hsm']
    exact ⟨rfl, rfl, rfl, rfl, rfl, hcalled, .inr (.inl ⟨rfl, rfl⟩)⟩
  · rw [hsm']
    exact ⟨rfl, rfl, rfl, rfl, rfl, hcalled, .inr (.inr ⟨rfl, rfl⟩)⟩

/-- The transition of `strayCalls` is asked for with its target locked. -/
theorem failing_call_atomic_locked :
    let sm := final (step .little) freshMachine (strayCalls ++ [(stillHost, .lockState 2)])
    let r := handle .little sm stillHost (.op (.executeTransition (some (CString.ofChars ['t']))))
    r.status = .errorStateLocked ∧ r.machine.states = sm.states ∧ r.called = [] := by
  intro sm r
  have h := failing_call_atomic .little sm stillHost
    (.op (.executeTransition (some (CString.ofChars ['t'])))) (by decide)
  exact ⟨by decide, h.2.2.2.1, h.2.2.2.2.2.1⟩

end LibPolyCall.StateMachine
