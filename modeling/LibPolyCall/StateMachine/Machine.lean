import LibPolyCall.Library.Bytes
import LibPolyCall.Library.Checksum
import LibPolyCall.Library.CString

/-!
# The state machine

The records of `polycall_state_machine.h` and the operations of `polycall_state_machine.c`, each
`polycall_sm_f` under the name `f`. The tables of a machine are lists of the registered entries,
so that `num_states` and `num_transitions` are their lengths. An operation takes a machine, so the
`NULL` machine, on which it returns at once, is left out; the other pointers that it checks are
options. A function pointer is an address, and the answers of the functions behind it (guards and
integrity checks), like the clock, come from a `Host` for each call; the state actions that a call
runs are listed in its result. Layouts are those of a 64-bit host.
-/

namespace LibPolyCall

open Bytes CStrings Checksum

/-- An address; `0` is `NULL`. -/
abbrev Ptr := UInt64

namespace StateMachine

/-- `POLYCALL_MAX_NAME_LENGTH`. -/
def maxNameLength : ℕ := 32

/-- `POLYCALL_MAX_STATES`. -/
def maxStates : ℕ := 32

/-- `POLYCALL_MAX_TRANSITIONS`. -/
def maxTransitions : ℕ := 64

/-- `PolyCall_State`. -/
structure PolyCallState where
  name : CharArray maxNameLength
  onEnter : Ptr
  onExit : Ptr
  isFinal : Bool
  /-- The three bytes that the compiler leaves between `is_final` and `id`. -/
  padding : CharArray 3
  id : UInt32
  checksum : UInt32
  timestamp : UInt64
  version : UInt32
  isLocked : Bool
deriving DecidableEq

/-- The zero record that `calloc` leaves in a slot with no registered state. -/
instance : Inhabited PolyCallState where
  default := ⟨CharArray.zeros _, 0, 0, false, CharArray.zeros _, 0, 0, 0, 0, false⟩

/-- `PolyCall_Transition`. -/
structure PolyCallTransition where
  name : CharArray maxNameLength
  fromState : UInt32
  toState : UInt32
  action : Ptr
  isValid : Bool
  guardCondition : Ptr
deriving DecidableEq

/-- `PolyCall_StateMachine`, without the fields that are written and never read. -/
structure PolyCallStateMachine where
  /-- `states[0]` to `states[num_states - 1]`. -/
  states : List PolyCallState
  /-- `transitions[0]` to `transitions[num_transitions - 1]`. -/
  transitions : List PolyCallTransition
  currentState : UInt32
  ctx : Ptr
  isInitialized : Bool
  integrityCheck : Ptr
  failedTransitions : UInt32
  integrityViolations : UInt32
deriving DecidableEq

/-- `PolyCall_StateSnapshot`. -/
structure PolyCallStateSnapshot where
  state : PolyCallState
  timestamp : UInt64
  checksum : UInt32
deriving DecidableEq

/-- `PolyCall_StateDiagnostics`. -/
structure PolyCallStateDiagnostics where
  stateId : UInt32
  creationTime : UInt64
  lastModified : UInt64
  transitionCount : UInt32
  integrityCheckCount : UInt32
  isLocked : Bool
  currentChecksum : UInt32
deriving DecidableEq

/-- `polycall_sm_status_t`. -/
inductive Status where
  | success
  | errorInvalidState
  | errorInvalidTransition
  | errorMaxStatesReached
  | errorMaxTransitionsReached
  | errorInvalidContext
  | errorNotInitialized
  | errorIntegrityCheckFailed
  | errorStateLocked
  | errorVersionMismatch
deriving DecidableEq, Repr

/-- What a call finds outside the machine: the clock, and the answers of the functions that the
machine stores by address. -/
structure Host where
  /-- What `time(NULL)` returns. -/
  now : UInt64
  /-- What the guard at an address answers for the two states of its transition. -/
  guard : Ptr → PolyCallState → PolyCallState → Bool
  /-- What the integrity check at an address answers for a state. -/
  integrityCheck : Ptr → PolyCallState → Bool

namespace PolyCallStateMachine

variable (sm : PolyCallStateMachine)

/-- `num_states`. -/
def numStates : ℕ := sm.states.length

/-- `num_transitions`. -/
def numTransitions : ℕ := sm.transitions.length

/-- `states[i]`; a slot with no registered state is as `calloc` left it. -/
def state (i : UInt32) : PolyCallState := sm.states.getD i.toNat default

/-- The loop of `execute_transition`: the first registered transition of this name. -/
def findTransition (name : CString) : Option PolyCallTransition :=
  sm.transitions.find? fun t => t.name.text = name.bytes

/-- `states[i]` rewritten in place. -/
def modifyState (i : UInt32) (f : PolyCallState → PolyCallState) : PolyCallStateMachine :=
  { sm with states := sm.states.modify i.toNat f }

/-- `diagnostics.failed_transitions++`. -/
def countFailure : PolyCallStateMachine :=
  { sm with failedTransitions := sm.failedTransitions + 1 }

/-- `diagnostics.integrity_violations++`. -/
def countViolation : PolyCallStateMachine :=
  { sm with integrityViolations := sm.integrityViolations + 1 }

end PolyCallStateMachine

/-- The bytes of a state record before its `checksum` field. -/
def checksummedBytes (o : ByteOrder) (state : PolyCallState) : List UInt8 :=
  state.name.toList ++ encode o 8 state.onEnter.toNat ++ encode o 8 state.onExit.toNat ++
    [if state.isFinal then 1 else 0] ++ state.padding.toList ++ encode o 4 state.id.toNat

/-- `calculate_state_checksum`. -/
def calculateStateChecksum (o : ByteOrder) (state : PolyCallState) : UInt32 :=
  rotateAdd 8 (checksummedBytes o state)

/-- `update_state_timestamp`. -/
def updateStateTimestamp (now : UInt64) (state : PolyCallState) : PolyCallState :=
  { state with timestamp := now, version := state.version + 1 }

/-- `polycall_sm_create_with_integrity`, with the outcome of its `calloc`. -/
def createWithIntegrity (ctx : Ptr) (integrityCheck : Ptr) (allocated : Bool) :
    Status × Option PolyCallStateMachine :=
  if ctx = 0 then (.errorInvalidContext, none)
  else if !allocated then (.errorNotInitialized, none)
  else
    (.success, some
      { states := [], transitions := [], currentState := 0, ctx, isInitialized := true,
        integrityCheck, failedTransitions := 0, integrityViolations := 0 })

/-- `polycall_sm_add_state`. -/
def addState (o : ByteOrder) (host : Host) (sm : PolyCallStateMachine) (name : Option CString)
    (onEnter onExit : Ptr) (isFinal : Bool) : Status × PolyCallStateMachine :=
  match name with
  | none => (.errorInvalidState, sm)
  | some name =>
    if !sm.isInitialized then (.errorInvalidState, sm)
    else if maxStates ≤ sm.numStates then (.errorMaxStatesReached, sm)
    else
      let state : PolyCallState := updateStateTimestamp host.now
        { (default : PolyCallState) with
          name := CharArray.copy maxNameLength name, onEnter, onExit, isFinal,
          id := UInt32.ofNat sm.numStates, version := 1, isLocked := false }
      let state := { state with checksum := calculateStateChecksum o state }
      (.success, { sm with states := sm.states ++ [state] })

/-- `polycall_sm_add_transition`. -/
def addTransition (sm : PolyCallStateMachine) (name : Option CString) (fromState toState : UInt32)
    (action guardCondition : Ptr) : Status × PolyCallStateMachine :=
  match name with
  | none => (.errorInvalidTransition, sm)
  | some name =>
    if !sm.isInitialized then (.errorInvalidTransition, sm)
    else if maxTransitions ≤ sm.numTransitions then (.errorMaxTransitionsReached, sm)
    else if sm.numStates ≤ fromState.toNat ∨ sm.numStates ≤ toState.toNat then
      (.errorInvalidState, sm)
    else
      let transition : PolyCallTransition :=
        { name := CharArray.copy maxNameLength name, fromState, toState, action,
          isValid := true, guardCondition }
      (.success, { sm with transitions := sm.transitions ++ [transition] })

/-- The end of `execute_transition`: `current_state` set to the target of the transition, and the
timestamp of the target state updated. -/
def PolyCallStateMachine.enter (sm : PolyCallStateMachine) (now : UInt64)
    (transition : PolyCallTransition) : PolyCallStateMachine :=
  { sm.modifyState transition.toState (updateStateTimestamp now) with
    currentState := transition.toState }

/-- The state actions of a transition that are not `NULL`, in the order in which
`execute_transition` calls them. -/
def PolyCallStateMachine.actions (sm : PolyCallStateMachine) (transition : PolyCallTransition) :
    List Ptr :=
  [(sm.state transition.fromState).onExit, transition.action,
    (sm.state transition.toState).onEnter].filter (· ≠ 0)

/-- What `execute_transition` leaves behind: its status, the machine, and the state actions that
it called, in order. -/
structure Executed where
  status : Status
  machine : PolyCallStateMachine
  called : List Ptr

/-- `polycall_sm_execute_transition`. -/
def executeTransition (host : Host) (sm : PolyCallStateMachine)
    (transitionName : Option CString) : Executed :=
  match transitionName with
  | none => ⟨.errorInvalidTransition, sm, []⟩
  | some name =>
    if !sm.isInitialized then ⟨.errorInvalidTransition, sm, []⟩
    else
      match sm.findTransition name with
      | none => ⟨.errorInvalidTransition, sm.countFailure, []⟩
      | some transition =>
        if !transition.isValid then ⟨.errorInvalidTransition, sm.countFailure, []⟩
        else
          let fromState := sm.state transition.fromState
          let toState := sm.state transition.toState
          if fromState.isLocked || toState.isLocked then ⟨.errorStateLocked, sm, []⟩
          else if transition.guardCondition ≠ 0 &&
              !host.guard transition.guardCondition fromState toState then
            ⟨.errorInvalidTransition, sm.countFailure, []⟩
          else
            -- `transition.fromState` is not compared with `sm.currentState`.
            ⟨.success, sm.enter host.now transition, sm.actions transition⟩

/-- `polycall_sm_verify_state_integrity`. -/
def verifyStateIntegrity (o : ByteOrder) (host : Host) (sm : PolyCallStateMachine)
    (stateId : UInt32) : Status × PolyCallStateMachine :=
  if !sm.isInitialized then (.errorNotInitialized, sm)
  else if sm.numStates ≤ stateId.toNat then (.errorInvalidState, sm)
  else
    let state := sm.state stateId
    if calculateStateChecksum o state ≠ state.checksum then
      (.errorIntegrityCheckFailed, sm.countViolation)
    else if sm.integrityCheck ≠ 0 && !host.integrityCheck sm.integrityCheck state then
      (.errorIntegrityCheckFailed, sm.countViolation)
    else (.success, sm)

/-- What `lock_state` and `unlock_state` share: the lock flag of a registered state set, and its
timestamp updated. -/
def setLock (locked : Bool) (host : Host) (sm : PolyCallStateMachine) (stateId : UInt32) :
    Status × PolyCallStateMachine :=
  if !sm.isInitialized then (.errorNotInitialized, sm)
  else if sm.numStates ≤ stateId.toNat then (.errorInvalidState, sm)
  else
    (.success, sm.modifyState stateId fun state =>
      updateStateTimestamp host.now { state with isLocked := locked })

/-- `polycall_sm_lock_state`. -/
def lockState (host : Host) (sm : PolyCallStateMachine) (stateId : UInt32) :
    Status × PolyCallStateMachine :=
  setLock true host sm stateId

/-- `polycall_sm_unlock_state`. -/
def unlockState (host : Host) (sm : PolyCallStateMachine) (stateId : UInt32) :
    Status × PolyCallStateMachine :=
  setLock false host sm stateId

/-- `polycall_sm_create_state_snapshot`, with the snapshot that it fills in. -/
def createStateSnapshot (o : ByteOrder) (host : Host) (sm : PolyCallStateMachine)
    (stateId : UInt32) : Status × Option PolyCallStateSnapshot :=
  if !sm.isInitialized then (.errorNotInitialized, none)
  else if sm.numStates ≤ stateId.toNat then (.errorInvalidState, none)
  else
    let state := sm.state stateId
    (.success, some
      { state, timestamp := host.now, checksum := calculateStateChecksum o state })

/-- `polycall_sm_restore_state_from_snapshot`. -/
def restoreStateFromSnapshot (host : Host) (sm : PolyCallStateMachine)
    (snapshot : Option PolyCallStateSnapshot) : Status × PolyCallStateMachine :=
  match snapshot with
  | none => (.errorNotInitialized, sm)
  | some snapshot =>
    if !sm.isInitialized then (.errorNotInitialized, sm)
    else if sm.numStates ≤ snapshot.state.id.toNat then (.errorInvalidState, sm)
    else
      let state := sm.state snapshot.state.id
      if state.isLocked then (.errorStateLocked, sm)
      else if state.version ≠ snapshot.state.version then (.errorVersionMismatch, sm)
      else
        (.success, sm.modifyState snapshot.state.id fun _ =>
          updateStateTimestamp host.now snapshot.state)

/-- `polycall_sm_get_state_version`, with the version that it fills in; `version` tells whether the
caller gives a place for it. -/
def getStateVersion (sm : PolyCallStateMachine) (stateId : UInt32) (version : Bool) :
    Status × Option UInt32 :=
  if !sm.isInitialized || !version then (.errorNotInitialized, none)
  else if sm.numStates ≤ stateId.toNat then (.errorInvalidState, none)
  else (.success, some (sm.state stateId).version)

/-- `polycall_sm_get_state_diagnostics`, with the diagnostics that it fills in; `diagnostics` tells
whether the caller gives a place for them. -/
def getStateDiagnostics (sm : PolyCallStateMachine) (stateId : UInt32) (diagnostics : Bool) :
    Status × Option PolyCallStateDiagnostics :=
  if !sm.isInitialized || !diagnostics then (.errorNotInitialized, none)
  else if sm.numStates ≤ stateId.toNat then (.errorInvalidState, none)
  else
    let state := sm.state stateId
    (.success, some
      { stateId := state.id, creationTime := state.timestamp, lastModified := state.timestamp,
        isLocked := state.isLocked, currentChecksum := state.checksum, transitionCount := 0,
        integrityCheckCount := 0 })

end StateMachine

end LibPolyCall
