import LibPolyCall.StateMachine.Walk

/-!
# What a call can do to a machine

`Change` lists everything that a call on a machine can do, with the tests that it has passed
before it does it, and `step_change` is the one place where the operations are unfolded. The
invariants of the machine are case analyses over it.

Most of them need only what a call does to one registered state: `mutated` names the state that
a successful call writes to, that state's version goes up by one, and every other registered
state stays as it was (`step_state`).
-/

namespace LibPolyCall.StateMachine

open Bytes CStrings Runs

/-- The record that `add_state` registers at the index `id`. -/
def newState (o : ByteOrder) (now : UInt64) (id : ℕ) (name : CString) (onEnter onExit : Ptr)
    (isFinal : Bool) : PolyCallState :=
  let state : PolyCallState := updateStateTimestamp now
    { (default : PolyCallState) with
      name := CharArray.copy maxNameLength name, onEnter, onExit, isFinal,
      id := UInt32.ofNat id, version := 1, isLocked := false }
  { state with checksum := calculateStateChecksum o state }

/-- The transition that `add_transition` registers. -/
def newTransition (name : CString) (fromState toState : UInt32) (action guard : Ptr) :
    PolyCallTransition :=
  { name := CharArray.copy maxNameLength name, fromState, toState, action, isValid := true,
    guardCondition := guard }

/-- What a call with this host can do to a machine: the operation, and the machine that it leaves
with what it hands back. -/
inductive Change (o : ByteOrder) (host : Host) (sm : PolyCallStateMachine) :
    Op → PolyCallStateMachine × Reply → Prop where
  /-- The call fails, and at most counts a failed transition. -/
  | failed {op : Op} (status : Status) (failures : UInt32) (hstatus : status ≠ .success)
      (hfailures : failures = sm.failedTransitions ∨ failures = sm.failedTransitions + 1) :
      Change o host sm op ({ sm with failedTransitions := failures }, ⟨status, none, []⟩)
  | stateAdded (name : CString) (onEnter onExit : Ptr) (isFinal : Bool)
      (hroom : sm.numStates < maxStates) :
      Change o host sm (.addState (some name) onEnter onExit isFinal)
        ({ sm with
            states := sm.states ++
              [newState o host.now sm.numStates name onEnter onExit isFinal] },
          ⟨.success, none, []⟩)
  | transitionAdded (name : CString) (fromState toState : UInt32) (action guard : Ptr)
      (hroom : sm.numTransitions < maxTransitions) (hfrom : fromState.toNat < sm.numStates)
      (hto : toState.toNat < sm.numStates) :
      Change o host sm (.addTransition (some name) fromState toState action guard)
        ({ sm with
            transitions := sm.transitions ++
              [newTransition name fromState toState action guard] },
          ⟨.success, none, []⟩)
  | entered (name : CString) (t : PolyCallTransition) (henabled : Enabled host sm name t) :
      Change o host sm (.executeTransition (some name))
        (sm.enter host.now t, ⟨.success, none, sm.actions t⟩)
  | locked (stateId : UInt32) (hid : stateId.toNat < sm.numStates) :
      Change o host sm (.lockState stateId)
        (sm.modifyState stateId fun s => updateStateTimestamp host.now { s with isLocked := true },
          ⟨.success, none, []⟩)
  | unlocked (stateId : UInt32) (hid : stateId.toNat < sm.numStates) :
      Change o host sm (.unlockState stateId)
        (sm.modifyState stateId fun s => updateStateTimestamp host.now { s with isLocked := false },
          ⟨.success, none, []⟩)
  | snapshotTaken (stateId : UInt32) (hid : stateId.toNat < sm.numStates) :
      Change o host sm (.createStateSnapshot stateId)
        (sm, ⟨.success, some ⟨sm.state stateId, host.now,
          calculateStateChecksum o (sm.state stateId)⟩, []⟩)
  | restored (snapshot : PolyCallStateSnapshot)
      (hid : snapshot.state.id.toNat < sm.numStates)
      (hunlocked : (sm.state snapshot.state.id).isLocked = false)
      (hversion : (sm.state snapshot.state.id).version = snapshot.state.version) :
      Change o host sm (.restoreStateFromSnapshot (some snapshot))
        (sm.modifyState snapshot.state.id fun _ => updateStateTimestamp host.now snapshot.state,
          ⟨.success, none, []⟩)

/-- A call that returns an error at once. -/
theorem Change.rejected {o : ByteOrder} {host : Host} {sm : PolyCallStateMachine} {op : Op}
    (status : Status) (hstatus : status ≠ .success) :
    Change o host sm op (sm, ⟨status, none, []⟩) :=
  .failed status sm.failedTransitions hstatus (.inl rfl)

/-- Every call does one of the changes. -/
theorem step_change (o : ByteOrder) (sm : PolyCallStateMachine) (call : Host × Op) :
    Change o call.1 sm call.2 (step o sm call) := by
  obtain ⟨host, op⟩ := call
  -- The tests of each function, in the order in which it makes them.
  cases op with
  | addState name? onEnter onExit isFinal =>
    cases name? with
    | none => exact .rejected .errorInvalidState (by decide)
    | some name =>
      simp only [step, addState]
      split_ifs with hinit hfull
      · exact .rejected .errorInvalidState (by decide)
      · exact .rejected .errorMaxStatesReached (by decide)
      · exact .stateAdded name onEnter onExit isFinal (Nat.lt_of_not_le hfull)
  | addTransition name? fromState toState action guard =>
    cases name? with
    | none => exact .rejected .errorInvalidTransition (by decide)
    | some name =>
      simp only [step, addTransition]
      split_ifs with hinit hfull hends
      · exact .rejected .errorInvalidTransition (by decide)
      · exact .rejected .errorMaxTransitionsReached (by decide)
      · exact .rejected .errorInvalidState (by decide)
      · rw [not_or, Nat.not_le, Nat.not_le] at hends
        exact .transitionAdded name fromState toState action guard (Nat.lt_of_not_le hfull)
          hends.1 hends.2
  | executeTransition name? =>
    cases name? with
    | none => exact .rejected .errorInvalidTransition (by decide)
    | some name =>
      -- Its tests together are `CanExecute`.
      by_cases hcan : CanExecute host sm name
      · obtain ⟨t, ht⟩ := hcan
        simp only [step, executeTransition_of_enabled ht]
        exact .entered name t ht
      · obtain ⟨status, failures, hstatus, hfailures, heq⟩ := executeTransition_of_not_enabled hcan
        simp only [step, heq]
        exact .failed status failures hstatus hfailures
  | lockState stateId =>
    simp only [step, lockState, setLock]
    split_ifs with hinit hid
    · exact .rejected .errorNotInitialized (by decide)
    · exact .rejected .errorInvalidState (by decide)
    · exact .locked stateId (Nat.lt_of_not_le hid)
  | unlockState stateId =>
    simp only [step, unlockState, setLock]
    split_ifs with hinit hid
    · exact .rejected .errorNotInitialized (by decide)
    · exact .rejected .errorInvalidState (by decide)
    · exact .unlocked stateId (Nat.lt_of_not_le hid)
  | createStateSnapshot stateId =>
    simp only [step, createStateSnapshot]
    split_ifs with hinit hid
    · exact .rejected .errorNotInitialized (by decide)
    · exact .rejected .errorInvalidState (by decide)
    · exact .snapshotTaken stateId (Nat.lt_of_not_le hid)
  | restoreStateFromSnapshot snapshot? =>
    cases snapshot? with
    | none => exact .rejected .errorNotInitialized (by decide)
    | some snapshot =>
      simp only [step, restoreStateFromSnapshot]
      split_ifs with hinit hid hlocked hversion
      · exact .rejected .errorNotInitialized (by decide)
      · exact .rejected .errorInvalidState (by decide)
      · exact .rejected .errorStateLocked (by decide)
      · exact .rejected .errorVersionMismatch (by decide)
      · exact .restored snapshot (Nat.lt_of_not_le hid) (by simpa using hlocked)
          (not_not.1 hversion)

/-! ## One registered state -/

section States

variable {sm : PolyCallStateMachine} {i j : UInt32}

/-- A registered state is the entry of the table at its index. -/
theorem getElem?_state (hi : i.toNat < sm.numStates) :
    sm.states[i.toNat]? = some (sm.state i) := by
  have hget : sm.states[i.toNat]? = some (sm.states.get ⟨i.toNat, hi⟩) :=
    List.getElem?_eq_getElem hi
  unfold PolyCallStateMachine.state
  rw [List.getD_eq_getElem?_getD, hget, Option.getD_some]

/-- A change of a state adds no state. -/
@[simp] theorem numStates_modifyState (f : PolyCallState → PolyCallState) :
    (sm.modifyState j f).numStates = sm.numStates :=
  List.length_modify ..

/-- Entering a state adds no state. -/
@[simp] theorem numStates_enter (now : UInt64) (t : PolyCallTransition) :
    (sm.enter now t).numStates = sm.numStates :=
  numStates_modifyState _

/-- A write to one state leaves the other registered states as they were. -/
theorem state_modifyState (f : PolyCallState → PolyCallState) (hi : i.toNat < sm.numStates) :
    (sm.modifyState j f).state i = if i = j then f (sm.state i) else sm.state i := by
  unfold PolyCallStateMachine.modifyState
  rw [PolyCallStateMachine.state, List.getD_eq_getElem?_getD, List.getElem?_modify,
    getElem?_state hi]
  simp only [UInt32.toNat_inj, eq_comm]
  split_ifs <;> rfl

/-- A state added to the table leaves the registered ones as they were. -/
theorem state_append {sm' : PolyCallStateMachine} {state : PolyCallState}
    (h : sm'.states = sm.states ++ [state]) (hi : i.toNat < sm.numStates) :
    sm'.state i = sm.state i := by
  unfold PolyCallStateMachine.state
  rw [List.getD_eq_getElem?_getD, List.getD_eq_getElem?_getD, h, List.getElem?_append_left hi]

/-- The state added to the table is the one behind the registered ones. -/
theorem state_append_self {sm' : PolyCallStateMachine} {state : PolyCallState}
    (h : sm'.states = sm.states ++ [state]) (hi : i.toNat = sm.numStates) :
    sm'.state i = state := by
  unfold PolyCallStateMachine.state
  rw [List.getD_eq_getElem?_getD, h, hi, PolyCallStateMachine.numStates,
    List.getElem?_concat_length, Option.getD_some]

end States

/-- The state that a call writes to when it succeeds. -/
def writesTo (sm : PolyCallStateMachine) : Op → Option UInt32
  | .lockState stateId => some stateId
  | .unlockState stateId => some stateId
  | .executeTransition (some name) => (sm.findTransition name).map fun t => t.toState
  | .restoreStateFromSnapshot (some snapshot) => some snapshot.state.id
  | _ => none

/-- The state that a call mutates: that of a successful `lock_state`, `unlock_state`, or
restoration, and the one that a successful `execute_transition` enters. -/
def mutated (o : ByteOrder) (sm : PolyCallStateMachine) (call : Host × Op) : Option UInt32 :=
  if (step o sm call).2.status = .success then writesTo sm call.2 else none

/-- What a call does to a registered state: it mutates the state, and its version goes up by one,
or the state stays as it was. -/
theorem step_state (o : ByteOrder) (sm : PolyCallStateMachine) (call : Host × Op) {k : UInt32}
    (hk : k.toNat < sm.numStates) :
    (mutated o sm call = some k ∧
        ((step o sm call).1.state k).version = (sm.state k).version + 1) ∨
      (mutated o sm call ≠ some k ∧ (step o sm call).1.state k = sm.state k) := by
  obtain ⟨host, op⟩ := call
  unfold mutated
  have hchange := step_change o sm (host, op)
  generalize step o sm (host, op) = r at hchange ⊢
  -- A write to the state `j`: it is a mutation of `k` when `j` is `k`, and else passes it by.
  have hwrite : ∀ (j : UInt32) (f : PolyCallState → PolyCallState),
      (j = k → (f (sm.state k)).version = (sm.state k).version + 1) →
      (some j = some k ∧ ((sm.modifyState j f).state k).version = (sm.state k).version + 1) ∨
        (some j ≠ some k ∧ (sm.modifyState j f).state k = sm.state k) := by
    intro j f hf
    rw [state_modifyState f hk]
    rcases eq_or_ne j k with rfl | hne
    · exact .inl ⟨rfl, by rw [if_pos rfl, hf rfl]⟩
    · exact .inr ⟨by simpa using hne, if_neg hne.symm⟩
  cases hchange with
  | failed status failures hstatus hfailures => exact .inr ⟨by simp [hstatus], rfl⟩
  | stateAdded name onEnter onExit isFinal hroom =>
    exact .inr ⟨by simp [writesTo], state_append rfl hk⟩
  | transitionAdded name fromState toState action guard hroom hfrom hto =>
    exact .inr ⟨by simp [writesTo], rfl⟩
  | entered name t henabled =>
    simp only [writesTo, henabled.found, Option.map_some, if_true]
    exact hwrite t.toState _ fun _ => rfl
  | locked stateId hid => exact hwrite stateId _ fun _ => rfl
  | unlocked stateId hid => exact hwrite stateId _ fun _ => rfl
  | snapshotTaken stateId hid => exact .inr ⟨by simp [writesTo], rfl⟩
  | restored snapshot hid hunlocked hversion =>
    -- The version written back is the one that the state has.
    refine hwrite snapshot.state.id _ fun hk => ?_
    subst hk
    rw [hversion]
    rfl

/-- The registered states stay registered. -/
theorem numStates_le_step (o : ByteOrder) (sm : PolyCallStateMachine) (call : Host × Op) :
    sm.numStates ≤ (step o sm call).1.numStates := by
  obtain ⟨host, op⟩ := call
  have hchange := step_change o sm (host, op)
  generalize step o sm (host, op) = r at hchange ⊢
  cases hchange with
  | failed status failures hstatus hfailures => exact Nat.le_refl _
  | stateAdded name onEnter onExit isFinal hroom => exact (List.prefix_append _ _).length_le
  | transitionAdded name fromState toState action guard hroom hfrom hto => exact Nat.le_refl _
  | entered name t henabled => exact (numStates_enter host.now t).ge
  | locked stateId hid => exact (numStates_modifyState _).ge
  | unlocked stateId hid => exact (numStates_modifyState _).ge
  | snapshotTaken stateId hid => exact Nat.le_refl _
  | restored snapshot hid hunlocked hversion => exact (numStates_modifyState _).ge

end LibPolyCall.StateMachine
