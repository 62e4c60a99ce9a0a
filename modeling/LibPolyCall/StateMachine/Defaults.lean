import LibPolyCall.StateMachine.Changes

/-!
# The default machine

`initialize_state_machine` creates a machine with five states and the five transitions between
them. As a `Lifecycle` such a machine is the state that it is in and the states that are locked. A
run of calls that execute transitions, lock and unlock states and take snapshots gives what the
lifecycle gives, call by call, and ends where the lifecycle ends (`default_machine_refines`): a
transition of the five is made unless one of its two states is locked, wherever the machine is, and
no other name does anything.
-/

namespace LibPolyCall.StateMachine

open Bytes CStrings Runs

/-! ## Initialization -/

/-- `StateConfig`. -/
structure StateConfig where
  name : CString
  onEnter : Ptr
  onExit : Ptr
  isFinal : Bool

/-- The addresses of the callbacks `on_init`, `on_ready`, `on_running`, `on_paused` and
`on_error`. -/
structure StateCallbacks where
  onInit : Ptr
  onReady : Ptr
  onRunning : Ptr
  onPaused : Ptr
  onError : Ptr

/-- `DEFAULT_STATES`. -/
def defaultStates (callbacks : StateCallbacks) : List StateConfig :=
  [⟨CString.ofChars ['I', 'N', 'I', 'T'], callbacks.onInit, 0, false⟩,
    ⟨CString.ofChars ['R', 'E', 'A', 'D', 'Y'], callbacks.onReady, 0, false⟩,
    ⟨CString.ofChars ['R', 'U', 'N', 'N', 'I', 'N', 'G'], callbacks.onRunning, 0, false⟩,
    ⟨CString.ofChars ['P', 'A', 'U', 'S', 'E', 'D'], callbacks.onPaused, 0, false⟩,
    ⟨CString.ofChars ['E', 'R', 'R', 'O', 'R'], callbacks.onError, 0, true⟩]

/-- `init_state`. -/
def initState (o : ByteOrder) (host : Host) (sm : PolyCallStateMachine) (config : StateConfig) :
    Status × PolyCallStateMachine :=
  addState o host sm (some config.name) config.onEnter config.onExit config.isFinal

/-- The loop of `initialize_state_machine` over the states, each added at its own time. -/
def initStates (o : ByteOrder) : PolyCallStateMachine → List (Host × StateConfig) →
    Status × PolyCallStateMachine
  | sm, [] => (.success, sm)
  | sm, (host, config) :: configs =>
    let r := initState o host sm config
    if r.1 ≠ .success then r else initStates o r.2 configs

/-- An entry of the table of `init_default_transitions`. -/
structure TransitionConfig where
  name : CString
  fromState : CString
  toState : CString

/-- The table of `init_default_transitions`. -/
def defaultTransitions : List TransitionConfig :=
  [⟨CString.ofChars ['t', 'o', '_', 'r', 'e', 'a', 'd', 'y'], CString.ofChars ['I', 'N', 'I', 'T'],
      CString.ofChars ['R', 'E', 'A', 'D', 'Y']⟩,
    ⟨CString.ofChars ['t', 'o', '_', 'r', 'u', 'n', 'n', 'i', 'n', 'g'],
      CString.ofChars ['R', 'E', 'A', 'D', 'Y'],
      CString.ofChars ['R', 'U', 'N', 'N', 'I', 'N', 'G']⟩,
    ⟨CString.ofChars ['t', 'o', '_', 'p', 'a', 'u', 's', 'e', 'd'],
      CString.ofChars ['R', 'U', 'N', 'N', 'I', 'N', 'G'],
      CString.ofChars ['P', 'A', 'U', 'S', 'E', 'D']⟩,
    ⟨CString.ofChars ['p', 'a', 'u', 's', 'e', '_', 't', 'o', '_', 'r', 'u', 'n', 'n', 'i', 'n',
        'g'],
      CString.ofChars ['P', 'A', 'U', 'S', 'E', 'D'],
      CString.ofChars ['R', 'U', 'N', 'N', 'I', 'N', 'G']⟩,
    ⟨CString.ofChars ['t', 'o', '_', 'e', 'r', 'r', 'o', 'r'],
      CString.ofChars ['R', 'U', 'N', 'N', 'I', 'N', 'G'],
      CString.ofChars ['E', 'R', 'R', 'O', 'R']⟩]

/-- The loop of `init_default_transitions` over the states: the last index under this name, and 0
where there is none. -/
def findStateId (sm : PolyCallStateMachine) (name : CString) : UInt32 :=
  sm.states.zipIdx.foldl (fun id s => if s.1.name.text = name.bytes then UInt32.ofNat s.2 else id) 0

/-- `init_default_transitions`, on this table. -/
def initDefaultTransitions : PolyCallStateMachine → List TransitionConfig →
    Status × PolyCallStateMachine
  | sm, [] => (.success, sm)
  | sm, config :: configs =>
    let r := addTransition sm (some config.name) (findStateId sm config.fromState)
      (findStateId sm config.toState) 0 0
    if r.1 ≠ .success then r else initDefaultTransitions r.2 configs

/-- `initialize_state_machine`, with the context that `polycall_init_with_config` gives, if it
succeeds, the outcome of the `calloc` for the machine, and the host at the time of each state. -/
def initializeStateMachine (o : ByteOrder) (host : ℕ → Host) (callbacks : StateCallbacks)
    (ctx : Option Ptr) (allocated : Bool) : Status × Option PolyCallStateMachine :=
  match ctx with
  | none => (.errorInvalidContext, none)
  | some ctx =>
    match createWithIntegrity ctx 0 allocated with
    | (.success, some sm) =>
      let added := initStates o sm
        ((defaultStates callbacks).zipIdx.map fun config => (host config.2, config.1))
      if added.1 ≠ .success then (added.1, none)
      else
        let linked := initDefaultTransitions added.2 defaultTransitions
        if linked.1 ≠ .success then (linked.1, none) else (.success, some linked.2)
    | _ => (.errorNotInitialized, none)

/-! ## The lifecycle -/

/-- The default states. -/
inductive DefaultState where
  | init
  | ready
  | running
  | paused
  | error
deriving DecidableEq, Repr

/-- The default transitions. -/
inductive DefaultTransition where
  | toReady
  | toRunning
  | toPaused
  | pauseToRunning
  | toError
deriving DecidableEq, Repr

namespace DefaultState

/-- The name of a default state. -/
def name : DefaultState → CString
  | .init => CString.ofChars ['I', 'N', 'I', 'T']
  | .ready => CString.ofChars ['R', 'E', 'A', 'D', 'Y']
  | .running => CString.ofChars ['R', 'U', 'N', 'N', 'I', 'N', 'G']
  | .paused => CString.ofChars ['P', 'A', 'U', 'S', 'E', 'D']
  | .error => CString.ofChars ['E', 'R', 'R', 'O', 'R']

/-- The default states in the order in which they are added. -/
def all : List DefaultState := [init, ready, running, paused, error]

/-- The index of a default state. -/
def id : DefaultState → UInt32
  | .init => 0
  | .ready => 1
  | .running => 2
  | .paused => 3
  | .error => 4

/-- The default state at an index. -/
def ofId? (id : UInt32) : Option DefaultState :=
  [init, ready, running, paused, error][id.toNat]?

/-- What a default state calls when it is entered. -/
def onEnter (callbacks : StateCallbacks) : DefaultState → Ptr
  | .init => callbacks.onInit
  | .ready => callbacks.onReady
  | .running => callbacks.onRunning
  | .paused => callbacks.onPaused
  | .error => callbacks.onError

end DefaultState

namespace DefaultTransition

/-- The state that a default transition leaves. -/
def source : DefaultTransition → DefaultState
  | .toReady => .init
  | .toRunning => .ready
  | .toPaused => .running
  | .pauseToRunning => .paused
  | .toError => .running

/-- The state that a default transition enters. -/
def target : DefaultTransition → DefaultState
  | .toReady => .ready
  | .toRunning => .running
  | .toPaused => .paused
  | .pauseToRunning => .running
  | .toError => .error

/-- The default transitions in the order in which they are registered. -/
def all : List DefaultTransition := [toReady, toRunning, toPaused, pauseToRunning, toError]

/-- The name of a default transition. -/
def name : DefaultTransition → CString
  | .toReady => CString.ofChars ['t', 'o', '_', 'r', 'e', 'a', 'd', 'y']
  | .toRunning => CString.ofChars ['t', 'o', '_', 'r', 'u', 'n', 'n', 'i', 'n', 'g']
  | .toPaused => CString.ofChars ['t', 'o', '_', 'p', 'a', 'u', 's', 'e', 'd']
  | .pauseToRunning =>
    CString.ofChars
      ['p', 'a', 'u', 's', 'e', '_', 't', 'o', '_', 'r', 'u', 'n', 'n', 'i', 'n', 'g']
  | .toError => CString.ofChars ['t', 'o', '_', 'e', 'r', 'r', 'o', 'r']

/-- The default transition under a name. -/
def ofName? (name : CString) : Option DefaultTransition :=
  all.find? fun t => t.name.bytes = name.bytes

/-- The record of a default transition. -/
def record (t : DefaultTransition) : PolyCallTransition :=
  newTransition t.name t.source.id t.target.id 0 0

end DefaultTransition

/-- The default machine as its users see it: the state that it is in, and the states that are
locked. -/
structure Lifecycle where
  current : DefaultState
  locked : DefaultState → Bool

namespace Lifecycle

/-- A transition by its name: it is made unless one of its states is locked. -/
def execute (life : Lifecycle) (name : CString) : Lifecycle × Status × List DefaultState :=
  match DefaultTransition.ofName? name with
  | none => (life, .errorInvalidTransition, [])
  | some t =>
    if life.locked t.source || life.locked t.target then (life, .errorStateLocked, [])
    else ({ life with current := t.target }, .success, [t.target])

/-- A lock set or cleared. -/
def setLock (life : Lifecycle) (locked : Bool) (stateId : UInt32) :
    Lifecycle × Status × List DefaultState :=
  match DefaultState.ofId? stateId with
  | none => (life, .errorInvalidState, [])
  | some s => ({ life with locked := Function.update life.locked s locked }, .success, [])

/-- One call on the lifecycle, with its status and the states that it enters. -/
def step (life : Lifecycle) (call : Host × Op) : Lifecycle × Status × List DefaultState :=
  match call.2 with
  | .executeTransition (some name) => life.execute name
  | .executeTransition none => (life, .errorInvalidTransition, [])
  | .lockState stateId => life.setLock true stateId
  | .unlockState stateId => life.setLock false stateId
  | .createStateSnapshot stateId =>
    (life, if (DefaultState.ofId? stateId).isSome then .success else .errorInvalidState, [])
  | _ => (life, .errorInvalidState, [])

/-- A new machine: in its first state, with nothing locked. -/
def start : Lifecycle := ⟨.init, fun _ => false⟩

end Lifecycle

/-- The call executes a transition, locks or unlocks a state, or takes a snapshot. -/
def Op.Operates : Op → Prop
  | .executeTransition _ | .lockState _ | .unlockState _ | .createStateSnapshot _ => True
  | _ => False

/-- The status of a call, and the callbacks that it calls. -/
def answered (o : ByteOrder) (sm : PolyCallStateMachine) (call : Host × Op) :
    List (Status × List Ptr) :=
  [((step o sm call).2.status, (step o sm call).2.called)]

/-- The status of a call on the lifecycle, and the callbacks of the states that it enters. -/
def Lifecycle.answered (callbacks : StateCallbacks) (life : Lifecycle) (call : Host × Op) :
    List (Status × List Ptr) :=
  [((life.step call).2.1,
    ((life.step call).2.2.map (DefaultState.onEnter callbacks)).filter (· ≠ 0))]

/-- The machine is a default machine at this point of its lifecycle. -/
structure Refines (callbacks : StateCallbacks) (sm : PolyCallStateMachine) (life : Lifecycle) :
    Prop where
  initialized : sm.isInitialized = true
  transitions : sm.transitions = DefaultTransition.all.map DefaultTransition.record
  count : sm.numStates = 5
  current : sm.currentState = life.current.id
  isLocked : ∀ s : DefaultState, (sm.state s.id).isLocked = life.locked s
  onEnter : ∀ s : DefaultState, (sm.state s.id).onEnter = s.onEnter callbacks
  onExit : ∀ s : DefaultState, (sm.state s.id).onExit = 0

/-! ## The new machine -/

section Defaults

variable {o : ByteOrder} {callbacks : StateCallbacks} {sm : PolyCallStateMachine}

/-- A state is added as the next one, where there is room. -/
theorem addState_of_room (host : Host) (name : CString) (onEnter onExit : Ptr) (isFinal : Bool)
    (hinit : sm.isInitialized = true) (hroom : sm.numStates < maxStates) :
    addState o host sm (some name) onEnter onExit isFinal =
      (.success, { sm with states := sm.states ++
        [newState o host.now sm.numStates name onEnter onExit isFinal] }) := by
  simp only [addState, hinit, Bool.not_true, Bool.false_eq_true, if_false, Nat.not_le.2 hroom]
  rfl

/-- The record of a default state. -/
def StateConfig.record (o : ByteOrder) (host : Host) (id : ℕ) (config : StateConfig) :
    PolyCallState :=
  newState o host.now id config.name config.onEnter config.onExit config.isFinal

/-- The states are added one after the other, where there is room for them. -/
theorem initStates_eq : ∀ (sm : PolyCallStateMachine) (configs : List (Host × StateConfig)),
    sm.isInitialized = true → sm.numStates + configs.length ≤ maxStates →
      initStates o sm configs =
        (.success, { sm with
          states := sm.states ++ (configs.zipIdx sm.numStates).map fun config =>
            config.1.2.record o config.1.1 config.2 })
  | sm, [], _, _ => by simp [initStates]
  | sm, (host, config) :: configs, hinit, hroom => by
    rw [List.length_cons] at hroom
    have hone := addState_of_room (o := o) host config.name config.onEnter config.onExit
      config.isFinal hinit (by omega)
    have hcount : (sm.states ++ [config.record o host sm.numStates]).length =
        sm.numStates + 1 := by
      rw [List.length_append, List.length_singleton]
      rfl
    simp only [initStates, initState, hone, ne_eq, not_true_eq_false, if_false]
    refine (initStates_eq { sm with states := sm.states ++ [config.record o host sm.numStates] }
      configs hinit ?_).trans ?_
    · simp only [PolyCallStateMachine.numStates] at hcount hroom ⊢
      omega
    · simp only [PolyCallStateMachine.numStates] at hcount ⊢
      rw [hcount, List.zipIdx_cons, List.map_cons, List.append_assoc, List.singleton_append]

/-- With room and its two states, a transition is added. -/
theorem addTransition_of_room (name : CString) {fromState toState : UInt32}
    (hinit : sm.isInitialized = true) (hroom : sm.numTransitions < maxTransitions)
    (hfrom : fromState.toNat < sm.numStates) (hto : toState.toNat < sm.numStates) :
    addTransition sm (some name) fromState toState 0 0 =
      (.success, { sm with
        transitions := sm.transitions ++ [newTransition name fromState toState 0 0] }) := by
  have hends : ¬(sm.numStates ≤ fromState.toNat ∨ sm.numStates ≤ toState.toNat) := by omega
  simp only [addTransition, hinit, Bool.not_true, Bool.false_eq_true, if_false,
    Nat.not_le.2 hroom, hends]
  rfl

/-- The transitions are added one after the other, where there is room for them and their states
are there. -/
theorem initDefaultTransitions_eq : ∀ (sm : PolyCallStateMachine) (configs : List TransitionConfig),
    sm.isInitialized = true → sm.numTransitions + configs.length ≤ maxTransitions →
      (∀ config ∈ configs, (findStateId sm config.fromState).toNat < sm.numStates ∧
        (findStateId sm config.toState).toNat < sm.numStates) →
      initDefaultTransitions sm configs =
        (.success, { sm with
          transitions := sm.transitions ++ configs.map fun config =>
            newTransition config.name (findStateId sm config.fromState)
              (findStateId sm config.toState) 0 0 })
  | sm, [], _, _, _ => by simp [initDefaultTransitions]
  | sm, config :: configs, hinit, hroom, hends => by
    rw [List.length_cons] at hroom
    rw [List.forall_mem_cons] at hends
    have hone := addTransition_of_room config.name hinit (by omega) hends.1.1 hends.1.2
    simp only [initDefaultTransitions, hone, ne_eq, not_true_eq_false, if_false]
    refine (initDefaultTransitions_eq { sm with transitions := sm.transitions ++
      [newTransition config.name (findStateId sm config.fromState)
        (findStateId sm config.toState) 0 0] } configs hinit ?_ hends.2).trans ?_
    · simp only [PolyCallStateMachine.numTransitions, List.length_append,
        List.length_singleton] at hroom ⊢
      omega
    · simp only [List.append_assoc, List.map_cons, List.singleton_append]
      rfl

/-- The names of the states, as they are stored. -/
def stateNames (sm : PolyCallStateMachine) : List (List UInt8) := sm.states.map fun s => s.name.text

/-- The lookup of a state reads the names only. -/
theorem findStateId_eq (name : CString) :
    findStateId sm name = (stateNames sm).zipIdx.foldl
      (fun id s => if s.1 = name.bytes then UInt32.ofNat s.2 else id) 0 := by
  rw [findStateId, stateNames, List.zipIdx_map, List.foldl_map]
  rfl

/-- A default state is found at its index. -/
theorem findStateId_name (h : stateNames sm = DefaultState.all.map fun s => s.name.bytes)
    (s : DefaultState) : findStateId sm s.name = s.id := by
  rw [findStateId_eq, h]
  cases s <;> decide

/-- On the default states the table leads to the default transitions. -/
theorem linked_eq (sm : PolyCallStateMachine) (hinit : sm.isInitialized = true)
    (hnone : sm.transitions = []) (h : stateNames sm = DefaultState.all.map fun s => s.name.bytes) :
    initDefaultTransitions sm defaultTransitions =
      (.success,
        { sm with transitions := DefaultTransition.all.map DefaultTransition.record }) := by
  have hcount : sm.numStates = 5 := by
    have hlength := congrArg List.length h
    rwa [stateNames, List.length_map] at hlength
  have hfind := findStateId_name h
  have hconfigs : defaultTransitions = DefaultTransition.all.map fun t =>
      ⟨t.name, t.source.name, t.target.name⟩ := rfl
  rw [initDefaultTransitions_eq sm defaultTransitions hinit]
  · rw [hnone, List.nil_append, hconfigs, List.map_map]
    simp only [Function.comp_def, hfind]
    rfl
  · rw [PolyCallStateMachine.numTransitions, hnone]
    decide
  · rw [hconfigs, List.forall_mem_map, hcount]
    intro t _
    rw [hfind, hfind]
    cases t <;> decide

/-- The machine that `initialize_state_machine` gives. -/
def defaultMachine (o : ByteOrder) (host : ℕ → Host) (callbacks : StateCallbacks) (ctx : Ptr) :
    PolyCallStateMachine where
  states := (defaultStates callbacks).zipIdx.map fun config =>
    config.1.record o (host config.2) config.2
  transitions := DefaultTransition.all.map DefaultTransition.record
  currentState := 0
  ctx
  isInitialized := true
  integrityCheck := 0
  failedTransitions := 0
  integrityViolations := 0

/-- `initialize_state_machine` gives the default machine, where it has a context and memory. -/
theorem initialize_eq (host : ℕ → Host) {ctx : Ptr} (hctx : ctx ≠ 0) :
    initializeStateMachine o host callbacks (some ctx) true =
      (.success, some (defaultMachine o host callbacks ctx)) := by
  have hadded := initStates_eq (o := o) ⟨[], [], 0, ctx, true, 0, 0, 0⟩
    ((defaultStates callbacks).zipIdx.map fun config => (host config.2, config.1)) rfl
    (by simp [defaultStates, PolyCallStateMachine.numStates, maxStates])
  have hlinked := linked_eq { defaultMachine o host callbacks ctx with transitions := [] }
    rfl rfl rfl
  simp only [initializeStateMachine, createWithIntegrity, hctx, if_false, Bool.not_true,
    Bool.false_eq_true, hadded, ne_eq, not_true_eq_false]
  -- The states that are added are those of the default machine.
  change (if (initDefaultTransitions { defaultMachine o host callbacks ctx with transitions := [] }
    defaultTransitions).1 ≠ .success then _ else (Status.success, some (initDefaultTransitions
      { defaultMachine o host callbacks ctx with transitions := [] } defaultTransitions).2)) = _
  simp only [hlinked, ne_eq, not_true_eq_false, if_false]
  rfl

/-- A machine that `initialize_state_machine` gives is at the start of its lifecycle. -/
theorem refines_start {host : ℕ → Host} {ctx : Option Ptr} {allocated : Bool}
    (h : initializeStateMachine o host callbacks ctx allocated = (.success, some sm)) :
    Refines callbacks sm .start := by
  cases ctx with
  | none => cases h
  | some ctx =>
    by_cases hctx : ctx = 0
    · simp [initializeStateMachine, createWithIntegrity, hctx] at h
    cases allocated with
    | false => simp [initializeStateMachine, createWithIntegrity, hctx] at h
    | true =>
      rw [initialize_eq host hctx] at h
      obtain rfl := Option.some.inj (congrArg Prod.snd h)
      refine ⟨rfl, rfl, rfl, rfl, ?_, ?_, ?_⟩
      all_goals
        intro s
        cases s <;> rfl

/-! ## The lifecycle of a default machine -/

/-- The default states have ids of their own. -/
theorem DefaultState.id_injective : Function.Injective DefaultState.id := by
  intro s t h
  cases s <;> cases t <;> first | rfl | exact absurd h (by decide)

/-- These are below five. -/
theorem DefaultState.toNat_id (s : DefaultState) : s.id.toNat < 5 := by
  cases s <;> decide

/-- The default state at an index has this index. -/
theorem DefaultState.id_of_ofId? {i : UInt32} {s : DefaultState} (h : ofId? i = some s) :
    s.id = i := by
  rw [← UInt32.toNat_inj]
  obtain ⟨hi, hget⟩ := List.getElem?_eq_some_iff.1 h
  rw [← hget]
  have hall : ∀ n : Fin 5,
      ([init, ready, running, paused, error].get n).id.toNat = n := by decide
  exact hall ⟨i.toNat, hi⟩

/-- There is a default state at the indices below their number. -/
theorem DefaultState.ofId?_eq_none_iff {i : UInt32} : ofId? i = none ↔ 5 ≤ i.toNat :=
  List.getElem?_eq_none_iff

/-- The name of a default transition is stored whole. -/
theorem DefaultTransition.text_record (t : DefaultTransition) :
    t.record.name.text = t.name.bytes := by
  cases t <;> decide

namespace Refines

variable {life : Lifecycle}

/-- The lookup of a name finds the default transition under it. -/
theorem findTransition (h : Refines callbacks sm life) (name : CString) :
    sm.findTransition name = (DefaultTransition.ofName? name).map DefaultTransition.record := by
  rw [PolyCallStateMachine.findTransition, h.transitions, List.find?_map,
    DefaultTransition.ofName?]
  simp only [Function.comp_def, DefaultTransition.text_record]

/-- A default state is registered. -/
theorem registered (h : Refines callbacks sm life) (s : DefaultState) :
    s.id.toNat < sm.numStates := by
  rw [h.count]
  exact s.toNat_id

/-- A write to a default state that keeps what it calls, and sets its lock to that of the
lifecycle. -/
theorem modifyState (h : Refines callbacks sm life) (s : DefaultState)
    {f : PolyCallState → PolyCallState} {locked : Bool}
    (hf : ∀ state, (f state).onEnter = state.onEnter ∧ (f state).onExit = state.onExit)
    (hlocked : (f (sm.state s.id)).isLocked = locked) :
    Refines callbacks (sm.modifyState s.id f)
      { life with locked := Function.update life.locked s locked } where
  initialized := h.initialized
  transitions := h.transitions
  count := by rw [numStates_modifyState, h.count]
  current := h.current
  isLocked t := by
    rw [state_modifyState _ (h.registered t)]
    by_cases hts : t = s
    · subst hts
      rw [if_pos rfl, hlocked]
      exact (Function.update_self t locked life.locked).symm
    · rw [if_neg fun heq => hts (DefaultState.id_injective heq), h.isLocked]
      exact (Function.update_of_ne hts locked life.locked).symm
  onEnter t := by
    rw [state_modifyState _ (h.registered t)]
    split
    · rw [(hf _).1, h.onEnter]
    · exact h.onEnter t
  onExit t := by
    rw [state_modifyState _ (h.registered t)]
    split
    · rw [(hf _).2, h.onExit]
    · exact h.onExit t

/-- A failure that is counted changes nothing else. -/
theorem countFailure (h : Refines callbacks sm life) : Refines callbacks sm.countFailure life :=
  ⟨h.initialized, h.transitions, h.count, h.current, h.isLocked, h.onEnter, h.onExit⟩

/-- A transition that is made enters its target. -/
theorem enter (h : Refines callbacks sm life) (now : UInt64) (t : DefaultTransition) :
    Refines callbacks (sm.enter now t.record) { life with current := t.target } := by
  have hmodified := h.modifyState t.target (f := updateStateTimestamp now) (fun _ => ⟨rfl, rfl⟩)
    (h.isLocked t.target)
  rw [Function.update_eq_self] at hmodified
  exact ⟨hmodified.initialized, hmodified.transitions, hmodified.count, rfl,
    hmodified.isLocked, hmodified.onEnter, hmodified.onExit⟩

/-- `execute_transition` does what the lifecycle does. -/
theorem executeTransition (h : Refines callbacks sm life) (host : Host) (name : CString) :
    (executeTransition host sm (some name)).status = (life.execute name).2.1 ∧
      (executeTransition host sm (some name)).called =
        ((life.execute name).2.2.map (DefaultState.onEnter callbacks)).filter (· ≠ 0) ∧
      Refines callbacks (executeTransition host sm (some name)).machine (life.execute name).1 := by
  have hfound := h.findTransition name
  cases hname : DefaultTransition.ofName? name with
  | none =>
    rw [hname, Option.map_none] at hfound
    simp only [StateMachine.executeTransition, h.initialized, hfound, Lifecycle.execute, hname]
    exact ⟨rfl, rfl, h.countFailure⟩
  | some t =>
    rw [hname, Option.map_some] at hfound
    have hfrom : (sm.state t.record.fromState).isLocked = life.locked t.source :=
      h.isLocked t.source
    have hto : (sm.state t.record.toState).isLocked = life.locked t.target := h.isLocked t.target
    have hactions : sm.actions t.record = [t.target.onEnter callbacks].filter (· ≠ 0) := by
      rw [PolyCallStateMachine.actions]
      change [(sm.state t.source.id).onExit, 0, (sm.state t.target.id).onEnter].filter _ = _
      rw [h.onExit, h.onEnter]
      rfl
    simp only [StateMachine.executeTransition, h.initialized, hfound, hfrom, hto,
      Lifecycle.execute, hname, Bool.not_true, Bool.false_eq_true, if_false]
    have hvalid : t.record.isValid = true := rfl
    have hguard : t.record.guardCondition = 0 := rfl
    rw [hvalid, hguard]
    by_cases hlocked : (life.locked t.source || life.locked t.target) = true
    · simp only [hlocked, Bool.not_true, Bool.false_eq_true, if_false, if_true]
      exact ⟨trivial, rfl, h⟩
    · simp only [hlocked, Bool.not_true, Bool.false_eq_true, if_false, ne_eq, not_true_eq_false,
        decide_false, Bool.false_and]
      exact ⟨trivial, hactions, h.enter host.now t⟩

/-- Setting or clearing a lock does what it does to the lifecycle. -/
theorem setLock (h : Refines callbacks sm life) (locked : Bool) (host : Host) (stateId : UInt32) :
    (setLock locked host sm stateId).1 = (life.setLock locked stateId).2.1 ∧
      (life.setLock locked stateId).2.2 = [] ∧
      Refines callbacks (setLock locked host sm stateId).2 (life.setLock locked stateId).1 := by
  simp only [StateMachine.setLock, h.initialized, Bool.not_true, Bool.false_eq_true, if_false,
    Lifecycle.setLock, h.count]
  cases hid : DefaultState.ofId? stateId with
  | none =>
    rw [if_pos (DefaultState.ofId?_eq_none_iff.1 hid)]
    exact ⟨rfl, rfl, h⟩
  | some s =>
    obtain rfl := DefaultState.id_of_ofId? hid
    rw [if_neg (Nat.not_le.2 s.toNat_id)]
    exact ⟨rfl, rfl, h.modifyState s (fun _ => ⟨rfl, rfl⟩) rfl⟩

/-- A call gives what it gives on the lifecycle. -/
theorem step (h : Refines callbacks sm life) {call : Host × Op} (hruns : call.2.Operates) :
    answered o sm call = life.answered callbacks call ∧
      Refines callbacks (step o sm call).1 (life.step call).1 := by
  obtain ⟨host, op⟩ := call
  cases op with
  | addState | addTransition | restoreStateFromSnapshot => cases hruns
  | executeTransition name? =>
    cases name? with
    | none => exact ⟨rfl, h⟩
    | some name =>
      obtain ⟨hstatus, hcalled, hnext⟩ := h.executeTransition host name
      refine ⟨?_, hnext⟩
      simp only [answered, Lifecycle.answered, StateMachine.step, Lifecycle.step, hstatus, hcalled]
  | lockState stateId =>
    obtain ⟨hstatus, hnone, hnext⟩ := h.setLock true host stateId
    refine ⟨?_, hnext⟩
    simp only [answered, Lifecycle.answered, StateMachine.step, lockState, Lifecycle.step, hstatus,
      hnone, List.map_nil, List.filter_nil]
  | unlockState stateId =>
    obtain ⟨hstatus, hnone, hnext⟩ := h.setLock false host stateId
    refine ⟨?_, hnext⟩
    simp only [answered, Lifecycle.answered, StateMachine.step, unlockState, Lifecycle.step,
      hstatus, hnone, List.map_nil, List.filter_nil]
  | createStateSnapshot stateId =>
    refine ⟨?_, h⟩
    simp only [answered, Lifecycle.answered, StateMachine.step, createStateSnapshot, h.initialized,
      Bool.not_true, Bool.false_eq_true, if_false, h.count, Lifecycle.step, List.map_nil,
      List.filter_nil]
    cases hid : DefaultState.ofId? stateId with
    | none =>
      rw [if_pos (DefaultState.ofId?_eq_none_iff.1 hid)]
      rfl
    | some s =>
      rw [← DefaultState.id_of_ofId? hid, if_neg (Nat.not_le.2 s.toNat_id)]
      rfl

end Refines

/-- A lifecycle never enters its first state. -/
theorem Lifecycle.init_notMem_step (life : Lifecycle) (call : Host × Op) :
    .init ∉ (life.step call).2.2 := by
  obtain ⟨host, op⟩ := call
  cases op with
  | executeTransition name? =>
    cases name? with
    | none => simp [step]
    | some name =>
      simp only [step, execute]
      split
      · simp
      · next t _ =>
        split
        · simp
        · rw [List.mem_singleton]
          cases t <;> exact fun h => absurd h (by decide)
  | lockState stateId | unlockState stateId =>
    simp only [step, setLock]
    split <;> simp
  | addState | addTransition | createStateSnapshot | restoreStateFromSnapshot => simp [step]

end Defaults

/-- A run of a default machine that adds and restores nothing answers each call as its lifecycle
does, and ends where the lifecycle ends, with the same states locked. It never comes back to its
first state. -/
theorem default_machine_refines (o : ByteOrder) (host : ℕ → Host) (callbacks : StateCallbacks)
    (ctx : Option Ptr) (allocated : Bool) (sm : PolyCallStateMachine)
    (h : initializeStateMachine o host callbacks ctx allocated = (.success, some sm))
    (calls : List (Host × Op)) (hcalls : ∀ call ∈ calls, call.2.Operates) :
    outputs (step o) (answered o) sm calls =
        outputs Lifecycle.step (Lifecycle.answered callbacks) .start calls ∧
      (final (step o) sm calls).currentState = (final Lifecycle.step .start calls).current.id ∧
      (∀ s : DefaultState, ((final (step o) sm calls).state s.id).isLocked =
        (final Lifecycle.step .start calls).locked s) ∧
      ∀ move ∈ moves Lifecycle.step .start calls, .init ∉ (move.1.step move.2).2.2 := by
  have hstep : ∀ (s : PolyCallStateMachine) (life : Lifecycle) (call : Host × Op),
      Refines callbacks s life → call.2.Operates →
        answered o s call = life.answered callbacks call ∧
          Refines callbacks (step o s call).1 (life.step call).1 :=
    fun _ _ _ hrefines hoperates => hrefines.step hoperates
  obtain ⟨hanswered, hfinal⟩ := outputs_simulates (C := fun call : Host × Op => call.2.Operates)
    hstep sm .start calls (refines_start h) hcalls
  exact ⟨hanswered, hfinal.current, hfinal.isLocked,
    fun move _ => move.1.init_notMem_step move.2⟩

/-- The machine starts to run without having been ready, and runs on from its final state. -/
theorem default_machine_refines_strays :
    let execute := fun t : DefaultTransition => (stillHost, Op.executeTransition (some t.name))
    outputs (step .little) (answered .little)
        (defaultMachine .little (fun _ => stillHost) ⟨1, 2, 3, 4, 5⟩ 1)
        [execute .toRunning, execute .toError, (stillHost, .lockState 1), execute .pauseToRunning,
          execute .toRunning] =
      [(.success, [3]), (.success, [5]), (.success, []), (.success, [3]),
        (.errorStateLocked, [])] := by
  intro execute
  refine (default_machine_refines .little (fun _ => stillHost) ⟨1, 2, 3, 4, 5⟩ (some 1) true _
    (initialize_eq _ (by decide)) _ ?_).1.trans (by decide)
  simp [execute, Op.Operates]

end LibPolyCall.StateMachine
