import LibPolyCall.Library.Keyed
import LibPolyCall.Library.Runs

/-!
# The state machine of the Node binding

`State.js` and `StateMachine.js`. A `State` is an object of its own, named here by its place among
the objects made, and the map `states` says which object has a name. `executeTransition` awaits
three functions that its user gives: the guard, `before` and `after`. So a call is in flight between
them, and the calls, the answers of these functions, and what else is done to the machine follow
each other in any order. The states are those that the machine has made itself. Of a state the name,
the lock and the transitions are kept, the listeners are left out. Snapshots are left out too:
`restoreFromSnapshot` sets the current state, the states and the history without a transition, and
is no event of the runs.
-/

namespace LibPolyCall.Node

/-- A `State`. -/
structure State where
  name : String
  isLocked : Bool
  /-- The names added with `addTransition`, in order; a name is added once. -/
  transitions : List String
deriving DecidableEq

/-- A value of the map `transitions`, without its functions. -/
structure Transition where
  fromName : String
  toName : String
deriving DecidableEq

/-- `transitionKey`. -/
def transitionKey (fromName toName : String) : String := fromName ++ "->" ++ toName

/-- The key of a transition in the map. -/
def Transition.key (transition : Transition) : String :=
  transitionKey transition.fromName transition.toName

/-- A record of the history. -/
structure Record where
  timestamp : ℕ
  fromName : String
  toName : String
deriving DecidableEq

/-- What a call of `executeTransition` awaits. -/
inductive Stage where
  | guard
  /-- `before`, with the state that was the current one when the guard had answered. -/
  | before (fromState : Option ℕ)
  /-- `after`, with the same state. -/
  | after (fromState : Option ℕ)
deriving DecidableEq

/-- A call of `executeTransition`. -/
inductive Call where
  /-- In flight: the state that was the current one when it was made, and the target. -/
  | inFlight (checked target : ℕ) (stage : Stage)
  /-- It has returned `true`. -/
  | returned
  /-- It has thrown an error of its own. -/
  | threw (message : String)
  /-- It has passed on what one of the three functions threw, or an error of the interpreter. -/
  | passedOn
deriving DecidableEq

/-- The argument of `executeTransition`. -/
inductive Target where
  | name (name : String)
  /-- A state object. -/
  | object (place : ℕ)
deriving DecidableEq

/-- A `StateMachine`. -/
structure StateMachine where
  /-- The state objects made. -/
  objects : List State
  /-- `states`: a name, and the place of its object. -/
  states : List (String × ℕ)
  transitions : List Transition
  currentState : Option ℕ
  history : List Record
  maxHistoryLength : ℕ
  allowSelfTransitions : Bool
  recordHistory : Bool
  calls : List Call
deriving DecidableEq

/-- The constructor; a `maxHistoryLength` of `0` is as good as none. -/
def newStateMachine (maxHistoryLength : ℕ) (allowSelfTransitions recordHistory : Bool) :
    StateMachine where
  objects := []
  states := []
  transitions := []
  currentState := none
  history := []
  maxHistoryLength := if maxHistoryLength = 0 then 100 else maxHistoryLength
  allowSelfTransitions
  recordHistory
  calls := []

namespace StateMachine

variable (machine : StateMachine)

/-- `states.get(name)`, as the place of the object. -/
def getState? (name : String) : Option ℕ := (Keyed.find Prod.fst name machine.states).map Prod.snd

/-- The name of an object; `currentState` and the targets of the calls are always objects made. -/
def nameOf (place : ℕ) : String := (machine.objects[place]?.map State.name).getD ""

/-- `isLocked` of an object. -/
def isLocked (place : ℕ) : Bool := machine.objects[place]?.any State.isLocked

/-- `addState`; `defer` is `options.defer`. -/
def addState (name : String) (defer : Bool) : StateMachine × Option String :=
  if (machine.getState? name).isSome then (machine, some ("State " ++ name ++ " already exists"))
  else if name = "" then (machine, some "State name must be a non-empty string")
  else
    let place := machine.objects.length
    ({ machine with
        objects := machine.objects ++ [⟨name, false, []⟩]
        states := machine.states ++ [(name, place)]
        currentState :=
          if machine.currentState.isNone && !defer then some place else machine.currentState },
      none)

/-- `addTransition`, of the states of two names. -/
def addTransition (fromName toName : String) : StateMachine × Option String :=
  match machine.getState? fromName with
  | none => (machine, some ("Source state " ++ fromName ++ " does not exist"))
  | some place =>
    if (machine.getState? toName).isNone then
      (machine, some ("Target state " ++ toName ++ " does not exist"))
    else
      ({ machine with
          transitions := Keyed.put Transition.key machine.transitions ⟨fromName, toName⟩
          objects := machine.objects.modify place fun state =>
            { state with
              transitions :=
                if toName ∈ state.transitions then state.transitions
                else state.transitions ++ [toName] } },
        none)

/-- What `lock` and `unlock` of a state share. -/
def setLock (locked : Bool) (name : String) : StateMachine × Option String :=
  match machine.getState? name with
  | none => (machine, some ("State " ++ name ++ " does not exist"))
  | some place =>
    if machine.isLocked place = locked then
      (machine, some ("State " ++ machine.nameOf place ++
        if locked then " is already locked" else " is not locked"))
    else
      ({ machine with
          objects := machine.objects.modify place fun state => { state with isLocked := locked } },
        none)

/-- `getState(name).lock()`. -/
def lock (name : String) : StateMachine × Option String := machine.setLock true name

/-- `getState(name).unlock()`. -/
def unlock (name : String) : StateMachine × Option String := machine.setLock false name

/-- The object of a target. -/
def target? : Target → Except String ℕ
  | .name name =>
    match machine.getState? name with
    | none => .error ("State " ++ name ++ " does not exist")
    | some place => .ok place
  | .object place => .ok place

/-- The tests of `executeTransition` before its guard: the current state, or what is thrown. -/
def checkTransition (target : ℕ) : Except String ℕ :=
  match machine.currentState with
  | none => .error "No current state"
  | some current =>
    let key := transitionKey (machine.nameOf current) (machine.nameOf target)
    if (Keyed.find Transition.key key machine.transitions).isNone then
      .error ("No transition defined from " ++ machine.nameOf current ++ " to " ++
        machine.nameOf target)
    else if !machine.allowSelfTransitions && current = target then
      .error "Self-transitions are not allowed"
    else if machine.isLocked current || machine.isLocked target then
      .error "Cannot transition when states are locked"
    else .ok current

/-- `executeTransition` up to its guard. -/
def executeTransition (toState : Target) : StateMachine :=
  let call : Call :=
    match machine.target? toState with
    | .error message => .threw message
    | .ok target =>
      match machine.checkTransition target with
      | .error message => .threw message
      | .ok current => .inFlight current target .guard
  { machine with calls := machine.calls ++ [call] }

/-- The guard of a call answers, or throws. -/
def guarded (place : ℕ) (answer : Option Bool) : StateMachine :=
  match machine.calls[place]? with
  | some (.inFlight checked target .guard) =>
    let call : Call :=
      match answer with
      | none => .passedOn
      | some false => .threw "Transition guard condition failed"
      -- The current state is read again here.
      | some true => .inFlight checked target (.before machine.currentState)
    { machine with calls := machine.calls.set place call }
  | _ => machine

/-- `before` of a call returns, or throws. -/
def entered (place : ℕ) (returned : Bool) : StateMachine :=
  match machine.calls[place]? with
  | some (.inFlight checked target (.before fromState)) =>
    if returned then
      { machine with
        currentState := some target
        calls := machine.calls.set place (.inFlight checked target (.after fromState)) }
    else { machine with calls := machine.calls.set place .passedOn }
  | _ => machine

/-- The record of a transition. -/
def record (now fromState toState : ℕ) : Record :=
  ⟨now, machine.nameOf fromState, machine.nameOf toState⟩

/-- `recordTransition`. -/
def recordTransition (now fromState toState : ℕ) : StateMachine :=
  let history := machine.history ++ [machine.record now fromState toState]
  { machine with
    history := if machine.maxHistoryLength < history.length then history.drop 1 else history }

/-- `after` of a call returns, or throws. -/
def left (place : ℕ) (returned : Bool) (now : ℕ) : StateMachine :=
  match machine.calls[place]? with
  | some (.inFlight _ target (.after fromState)) =>
    if !returned then { machine with calls := machine.calls.set place .passedOn }
    else if !machine.recordHistory then { machine with calls := machine.calls.set place .returned }
    else
      match fromState with
      -- `fromState.name` of `null`.
      | none => { machine with calls := machine.calls.set place .passedOn }
      | some fromState =>
        { machine.recordTransition now fromState target with
          calls := machine.calls.set place .returned }
  | _ => machine

/-- `clearHistory`. -/
def clearHistory : StateMachine := { machine with history := [] }

/-- `reset`. -/
def reset : StateMachine :=
  { machine with currentState := none, states := [], transitions := [], history := [] }

/-- What can happen to a machine. -/
inductive Event where
  | addState (name : String) (defer : Bool)
  | addTransition (fromName toName : String)
  | lock (name : String)
  | unlock (name : String)
  | executeTransition (toState : Target)
  | guarded (place : ℕ) (answer : Option Bool)
  | entered (place : ℕ) (returned : Bool)
  | left (place : ℕ) (returned : Bool) (now : ℕ)
  | clearHistory
  | reset
deriving DecidableEq

/-- Only an object that was made can be given to `executeTransition`. -/
def made : Target → Bool
  | .name _ => true
  | .object place => place < machine.objects.length

/-- One event, with what the call of a method throws at once. -/
def step : Event → StateMachine × Option String
  | .addState name defer => machine.addState name defer
  | .addTransition fromName toName => machine.addTransition fromName toName
  | .lock name => machine.lock name
  | .unlock name => machine.unlock name
  | .executeTransition toState =>
    (if machine.made toState then machine.executeTransition toState else machine, none)
  | .guarded place answer => (machine.guarded place answer, none)
  | .entered place returned => (machine.entered place returned, none)
  | .left place returned now => (machine.left place returned now, none)
  | .clearHistory => (machine.clearHistory, none)
  | .reset => (machine.reset, none)

end StateMachine

end LibPolyCall.Node
