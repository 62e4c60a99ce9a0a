import LibPolyCall.Library.Runs
import LibPolyCall.StateMachine.Execute

/-!
# The walk of `current_state`

A run of the machine is a list of calls, each with the host that it finds. `walked` gives the edge
of the transition that a call executed, and the question is whether the edges of a run form a path
from the state that the machine starts in.

The transitions only ever grow (`step_transitions`), and `current_state` only ever changes to the
target of an executed transition (`step_cases`). What `execute_transition` does not test is
that the transition leaves the current state, so the edges form a path exactly in the runs whose
calls only fire transitions that do (`walk_is_path_iff`). Nor does it test whether the current state
is final, so a final state is terminal exactly in the runs that do not lead out of it
(`finals_terminal_iff`).
-/

namespace LibPolyCall.StateMachine

open Bytes CStrings Runs

/-- A call on the machine, with its arguments. -/
inductive Op where
  | addState (name : Option CString) (onEnter onExit : Ptr) (isFinal : Bool)
  | addTransition (name : Option CString) (fromState toState : UInt32) (action guard : Ptr)
  | executeTransition (name : Option CString)
  | lockState (stateId : UInt32)
  | unlockState (stateId : UInt32)
  | createStateSnapshot (stateId : UInt32)
  | restoreStateFromSnapshot (snapshot : Option PolyCallStateSnapshot)

/-- What a call hands back: its status, the snapshot that it fills in, and the state actions that
it called. -/
structure Reply where
  status : Status
  snapshot : Option PolyCallStateSnapshot
  called : List Ptr

/-- One call on the machine. -/
def step (o : ByteOrder) (sm : PolyCallStateMachine) (call : Host × Op) :
    PolyCallStateMachine × Reply :=
  match call.2 with
  | .addState name onEnter onExit isFinal =>
    let r := addState o call.1 sm name onEnter onExit isFinal
    (r.2, ⟨r.1, none, []⟩)
  | .addTransition name fromState toState action guard =>
    let r := addTransition sm name fromState toState action guard
    (r.2, ⟨r.1, none, []⟩)
  | .executeTransition name =>
    let r := executeTransition call.1 sm name
    (r.machine, ⟨r.status, none, r.called⟩)
  | .lockState stateId =>
    let r := lockState call.1 sm stateId
    (r.2, ⟨r.1, none, []⟩)
  | .unlockState stateId =>
    let r := unlockState call.1 sm stateId
    (r.2, ⟨r.1, none, []⟩)
  | .createStateSnapshot stateId =>
    let r := createStateSnapshot o call.1 sm stateId
    (sm, ⟨r.1, r.2, []⟩)
  | .restoreStateFromSnapshot snapshot =>
    let r := restoreStateFromSnapshot call.1 sm snapshot
    (r.2, ⟨r.1, none, []⟩)

/-- The transition that a call executes: that of a successful `execute_transition`, which is the
one that its lookup finds. -/
def executedTransition (sm : PolyCallStateMachine) (call : Host × Op) :
    Option PolyCallTransition :=
  match call.2 with
  | .executeTransition (some name) =>
    if (executeTransition call.1 sm (some name)).status = .success then sm.findTransition name
    else none
  | _ => none

/-- The edge of the transition that a call executes. -/
def walked (sm : PolyCallStateMachine) (call : Host × Op) : List (UInt32 × UInt32) :=
  ((executedTransition sm call).map fun t => (t.fromState, t.toState)).toList

/-- A transition is executed exactly when it is enabled under the name of the call. -/
theorem executedTransition_eq_some_iff {sm : PolyCallStateMachine} {call : Host × Op}
    {t : PolyCallTransition} :
    executedTransition sm call = some t ↔
      ∃ name, call.2 = .executeTransition (some name) ∧ Enabled call.1 sm name t := by
  obtain ⟨host, op⟩ := call
  cases op with
  | executeTransition name? =>
    cases name? with
    | none => simp [executedTransition]
    | some name =>
      simp only [executedTransition, executeTransition_success_iff, Op.executeTransition.injEq,
        Option.some.injEq, exists_eq_left']
      constructor
      · intro h
        split_ifs at h with hcan
        obtain ⟨t', ht'⟩ := hcan
        rwa [← Option.some.inj (ht'.found.symm.trans h)]
      · intro h
        rw [if_pos ⟨t, h⟩]
        exact h.found
  | _ => simp [executedTransition]

/-- What one call does to the walk: it enters the transition that it executes, or it executes
none, stays in the current state, and keeps the registered transitions. -/
theorem step_cases (o : ByteOrder) (sm : PolyCallStateMachine) (call : Host × Op) :
    (∃ t, executedTransition sm call = some t ∧ (step o sm call).1 = sm.enter call.1.now t) ∨
      (executedTransition sm call = none ∧
        (step o sm call).1.currentState = sm.currentState ∧
        sm.transitions <+: (step o sm call).1.transitions) := by
  obtain ⟨host, op⟩ := call
  cases op with
  | executeTransition name? =>
    cases name? with
    | none => exact .inr ⟨rfl, rfl, List.prefix_rfl⟩
    | some name =>
      by_cases hcan : CanExecute host sm name
      · -- The only way in which the current state changes.
        obtain ⟨t, ht⟩ := hcan
        refine .inl ⟨t, executedTransition_eq_some_iff.2 ⟨name, rfl, ht⟩, ?_⟩
        simp only [step, executeTransition_of_enabled ht]
      · obtain ⟨status, failures, hstatus, -, heq⟩ := executeTransition_of_not_enabled hcan
        -- Where a test fails, only the count of failures changes.
        refine .inr ⟨by simp [executedTransition, heq, hstatus], ?_⟩
        simp only [step, heq]
        exact ⟨trivial, List.prefix_rfl⟩
  | addState name onEnter onExit isFinal =>
    refine .inr ⟨rfl, ?_⟩
    simp only [step, addState]
    repeat' split
    all_goals exact ⟨rfl, List.prefix_rfl⟩
  | addTransition name fromState toState action guard =>
    refine .inr ⟨rfl, ?_⟩
    simp only [step, addTransition]
    repeat' split
    all_goals exact ⟨rfl, by simp⟩
  | lockState stateId | unlockState stateId =>
    refine .inr ⟨rfl, ?_⟩
    simp only [step, lockState, unlockState, setLock]
    repeat' split
    all_goals exact ⟨rfl, List.prefix_rfl⟩
  | createStateSnapshot stateId => exact .inr ⟨rfl, rfl, List.prefix_rfl⟩
  | restoreStateFromSnapshot snapshot =>
    refine .inr ⟨rfl, ?_⟩
    simp only [step, restoreStateFromSnapshot]
    repeat' split
    all_goals exact ⟨rfl, List.prefix_rfl⟩

/-- The transitions of a machine stay registered. -/
theorem step_transitions (o : ByteOrder) (sm : PolyCallStateMachine) (call : Host × Op) :
    sm.transitions <+: (step o sm call).1.transitions := by
  rcases step_cases o sm call with ⟨t, -, heq⟩ | ⟨-, -, hprefix⟩
  · rw [heq]
    exact List.prefix_rfl
  · exact hprefix

/-- The call fires no transition but one that leaves the current state. -/
def FiresFromCurrent (sm : PolyCallStateMachine) (call : Host × Op) : Prop :=
  ∀ name t, call.2 = .executeTransition (some name) → Enabled call.1 sm name t →
    t.fromState = sm.currentState

/-- A call fires from the current state exactly when the transition that it executes leaves it. -/
theorem firesFromCurrent_iff {sm : PolyCallStateMachine} {call : Host × Op} :
    FiresFromCurrent sm call ↔
      ∀ t, executedTransition sm call = some t → t.fromState = sm.currentState := by
  simp only [FiresFromCurrent, executedTransition_eq_some_iff]
  exact ⟨fun h t ⟨name, hop, ht⟩ => h name t hop ht, fun h name t hop ht => h t ⟨name, hop, ht⟩⟩

/-- The edge of a call that fires from the current state leads from it to the next one. -/
theorem linked_walked (o : ByteOrder) (sm : PolyCallStateMachine) (call : Host × Op)
    (h : FiresFromCurrent sm call) :
    Linked sm.currentState (walked sm call) (step o sm call).1.currentState := by
  rcases step_cases o sm call with ⟨t, hexec, heq⟩ | ⟨hexec, hstay, -⟩
  · have hfrom : t.fromState = sm.currentState := firesFromCurrent_iff.1 h t hexec
    rw [heq, walked, hexec]
    exact ⟨hfrom, rfl⟩
  · rw [hstay, walked, hexec]
    rfl

/-- The edges of a run are those of transitions that are registered at its end. -/
theorem walked_registered (o : ByteOrder) (sm : PolyCallStateMachine)
    (calls : List (Host × Op)) :
    ∀ e ∈ outputs (step o) walked sm calls,
      ∃ t ∈ (final (step o) sm calls).transitions, e = (t.fromState, t.toState) := by
  intro e he
  obtain ⟨m, hm, he⟩ := List.mem_flatMap.1 he
  obtain ⟨t, ht, rfl⟩ :
      ∃ t, executedTransition m.1 m.2 = some t ∧ (t.fromState, t.toState) = e := by
    simpa [walked] using he
  obtain ⟨name, -, henabled⟩ := executedTransition_eq_some_iff.1 ht
  -- The transition was registered when it was executed, and the table only grows from there.
  have hgrow := (rel_final_of_step (R := fun a b => a.transitions <+: b.transitions)
    (fun _ => List.prefix_rfl) (fun _ _ _ => List.IsPrefix.trans) (step_transitions o) sm calls).2
    m hm
  exact ⟨t, hgrow.subset (List.mem_of_find?_eq_some henabled.found), rfl⟩

/-- A run walks its own graph exactly when its calls fire from the current state: then every
transition executed leaves the state that the machine is in, and the edges, all of them
registered, form a path from the state in which the machine starts to the one in which it
ends. -/
theorem walk_is_path_iff (o : ByteOrder) (sm : PolyCallStateMachine)
    (calls : List (Host × Op)) :
    ((∀ m ∈ moves (step o) sm calls, ∀ t, executedTransition m.1 m.2 = some t →
        t.fromState = m.1.currentState) ∧
      (∀ e ∈ outputs (step o) walked sm calls,
        ∃ t ∈ (final (step o) sm calls).transitions, e = (t.fromState, t.toState)) ∧
      Linked sm.currentState (outputs (step o) walked sm calls)
        (final (step o) sm calls).currentState) ↔
      ∀ m ∈ moves (step o) sm calls, FiresFromCurrent m.1 m.2 := by
  constructor
  · rintro ⟨h, -, -⟩ m hm
    exact firesFromCurrent_iff.2 (h m hm)
  · intro h
    refine ⟨fun m hm => firesFromCurrent_iff.1 (h m hm), walked_registered o sm calls, ?_⟩
    exact linked_moves (P := fun _ => True) (fun _ _ _ _ => trivial)
      (fun s call _ hfires => linked_walked o s call hfires) sm calls trivial h

/-- A host whose clock stands still and whose functions all answer yes. -/
def stillHost : Host := ⟨0, fun _ _ _ => true, fun _ _ => true⟩

/-- The machine that `create_with_integrity` makes for a context, without an integrity check. -/
def freshMachine : PolyCallStateMachine :=
  { states := [], transitions := [], currentState := 0, ctx := 1, isInitialized := true,
    integrityCheck := 0, failedTransitions := 0, integrityViolations := 0 }

/-- It is created. -/
theorem create_freshMachine : createWithIntegrity 1 0 true = (.success, some freshMachine) := rfl

/-- Three states, and one transition, which leads from the second to the third. -/
def strayCalls : List (Host × Op) :=
  [.addState (some (CString.ofChars ['A'])) 0 0 false,
    .addState (some (CString.ofChars ['B'])) 0 0 false,
    .addState (some (CString.ofChars ['C'])) 0 0 false,
    .addTransition (some (CString.ofChars ['t'])) 1 2 0 0].map (stillHost, ·)

/-- The transition of `strayCalls` fires although the machine is in the first state. -/
theorem stray_transition_fires :
    ∃ sm t, createWithIntegrity 1 0 true = (.success, some sm) ∧
      executedTransition (final (step .little) sm strayCalls)
        (stillHost, .executeTransition (some (CString.ofChars ['t']))) = some t ∧
      t.fromState ≠ (final (step .little) sm strayCalls).currentState :=
  ⟨_, _, rfl, rfl, by decide⟩

/-! ## Final states -/

/-- The call enters a final state: it executes a transition, and the state that the machine is in
afterwards is final. -/
def EntersFinal (o : ByteOrder) (sm : PolyCallStateMachine) (call : Host × Op) : Prop :=
  executedTransition sm call ≠ none ∧
    ((step o sm call).1.state (step o sm call).1.currentState).isFinal = true

/-- The call fires no transition but one that leads to the current state. -/
def StaysPut (sm : PolyCallStateMachine) (call : Host × Op) : Prop :=
  ∀ name t, call.2 = .executeTransition (some name) → Enabled call.1 sm name t →
    t.toState = sm.currentState

/-- A call keeps the current state exactly when it fires no transition that leads elsewhere. -/
theorem currentState_step_iff {o : ByteOrder} {sm : PolyCallStateMachine} {call : Host × Op} :
    (step o sm call).1.currentState = sm.currentState ↔ StaysPut sm call := by
  rcases step_cases o sm call with ⟨t, hexec, heq⟩ | ⟨hexec, hstay, -⟩
  · obtain ⟨name, hop, ht⟩ := executedTransition_eq_some_iff.1 hexec
    have hgoto : (step o sm call).1.currentState = t.toState := by rw [heq]; rfl
    rw [hgoto]
    constructor
    · intro hsame name' t' hop' ht'
      have hname : name' = name := by
        rw [hop] at hop'
        simpa using hop'.symm
      subst hname
      rw [ht'.unique ht, hsame]
    · exact fun h => h name t hop ht
  · refine iff_of_true hstay fun name t hop ht => ?_
    have hsome := executedTransition_eq_some_iff.2 ⟨name, hop, ht⟩
    rw [hexec] at hsome
    exact absurd hsome (by simp)

/-- In a run, the final states are terminal: from the call on that enters one, the machine stays in
it. -/
def FinalsTerminal (o : ByteOrder) (sm : PolyCallStateMachine) (calls : List (Host × Op)) : Prop :=
  ∀ before call after, calls = before ++ call :: after →
    EntersFinal o (final (step o) sm before) call →
      let entered := (step o (final (step o) sm before) call).1
      (∀ m ∈ moves (step o) entered after, m.1.currentState = entered.currentState) ∧
        (final (step o) entered after).currentState = entered.currentState

/-- From every machine and in every run, the final states are terminal exactly when no call that
comes after the entry of one fires a transition to another state. -/
theorem finals_terminal_iff (o : ByteOrder) (sm : PolyCallStateMachine)
    (calls : List (Host × Op)) :
    FinalsTerminal o sm calls ↔
      ∀ before call after, calls = before ++ call :: after →
        EntersFinal o (final (step o) sm before) call →
          ∀ m ∈ moves (step o) (step o (final (step o) sm before) call).1 after,
            StaysPut m.1 m.2 := by
  constructor
  · intro h before call after hcalls henters m hm
    set entered := (step o (final (step o) sm before) call).1
    obtain ⟨hmoves, hfinal⟩ := h before call after hcalls henters
    -- The state after a step of the run is a state of the run.
    have hnext := next_of_moves (P := fun s => s.currentState = entered.currentState) entered after
      hmoves hfinal m hm
    exact currentState_step_iff.1 (hnext.trans (hmoves m hm).symm)
  · intro h before call after hcalls henters
    set entered := (step o (final (step o) sm before) call).1
    exact moves_of_step (P := fun s => s.currentState = entered.currentState) (C := StaysPut)
      (fun s c hs hput => (currentState_step_iff.2 hput).trans hs) entered after rfl
      (h before call after hcalls henters)

/-- Two states, of which the second is final, a transition to it, and one that leads back. -/
def leavingCalls : List (Host × Op) :=
  [.addState (some (CString.ofChars ['A'])) 0 0 false,
    .addState (some (CString.ofChars ['B'])) 0 0 true,
    .addTransition (some (CString.ofChars ['t'])) 0 1 0 0,
    .addTransition (some (CString.ofChars ['u'])) 1 0 0 0,
    .executeTransition (some (CString.ofChars ['t'])),
    .executeTransition (some (CString.ofChars ['u']))].map (stillHost, ·)

/-- The last call of `leavingCalls` leaves the final state that the one before it has entered. -/
theorem final_state_left :
    createWithIntegrity 1 0 true = (.success, some freshMachine) ∧
      ¬ FinalsTerminal .little freshMachine leavingCalls := by
  refine ⟨rfl, fun h => ?_⟩
  have hlast := (h (leavingCalls.take 4)
    (stillHost, .executeTransition (some (CString.ofChars ['t'])))
    [(stillHost, .executeTransition (some (CString.ofChars ['u'])))] rfl
    ⟨by decide, by decide⟩).2
  exact absurd hlast (by decide)

end LibPolyCall.StateMachine
