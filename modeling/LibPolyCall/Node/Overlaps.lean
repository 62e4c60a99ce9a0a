import LibPolyCall.Node.StateMachine

/-!
# Overlapping transitions

The current state is read when `executeTransition` is called, again when its guard has answered, and
written when `before` has returned. What is in flight has always found its transition (`Sound`), and
the machine moves along the transitions that were found as long as no call enters its target late,
when another state has become the current one (`way_is_path_iff`).
-/

namespace LibPolyCall.Node

namespace StateMachine

variable {machine : StateMachine}

/-! ## What an event does -/

/-- The places that a machine holds are those of objects made, and the calls in flight have found
their transitions. -/
structure Sound (machine : StateMachine) : Prop where
  state : ∀ entry ∈ machine.states, entry.2 < machine.objects.length
  current : ∀ place ∈ machine.currentState, place < machine.objects.length
  call : ∀ {checked target : ℕ} {stage : Stage}, .inFlight checked target stage ∈ machine.calls →
    checked < machine.objects.length ∧ target < machine.objects.length ∧
      transitionKey (machine.nameOf checked) (machine.nameOf target) ∈
        machine.transitions.map Transition.key

/-- What an event leaves of the objects and the transitions: no object goes or changes its name,
and no key of a transition goes. -/
structure Extends (machine after : StateMachine) : Prop where
  objects : machine.objects.length ≤ after.objects.length
  nameOf : ∀ place < machine.objects.length, after.nameOf place = machine.nameOf place
  keys : ∀ key ∈ machine.transitions.map Transition.key,
    key ∈ after.transitions.map Transition.key

/-- Where nothing happens, nothing goes. -/
theorem Extends.refl (machine : StateMachine) : Extends machine machine :=
  ⟨le_refl _, fun _ _ => rfl, fun _ h => h⟩

/-- A change that keeps the name of an object keeps all names. -/
theorem nameOf_modify (place other : ℕ) {change : State → State}
    (hname : ∀ state, (change state).name = state.name) :
    ((machine.objects.modify place change)[other]?.map State.name).getD "" =
      machine.nameOf other := by
  rw [nameOf, List.getElem?_modify]
  cases machine.objects[other]? with
  | none => rfl
  | some state =>
    show (if place = other then change state else state).name = state.name
    split_ifs
    · exact hname state
    · rfl

/-- Locking and unlocking a state keeps the objects, their names and the keys. -/
theorem extends_setLock (locked : Bool) (name : String) :
    Extends machine (machine.setLock locked name).1 := by
  unfold setLock
  split
  · exact .refl _
  · split
    · exact .refl _
    · exact ⟨by simp, fun place _ => nameOf_modify _ _ fun _ => rfl, fun _ h => h⟩

/-- `addState` keeps the objects, their names and the keys. -/
theorem extends_addState (name : String) (defer : Bool) :
    Extends machine (machine.addState name defer).1 := by
  unfold addState
  split
  · exact .refl _
  · split
    · exact .refl _
    · refine ⟨by simp, fun place hplace => ?_, fun _ h => h⟩
      rw [nameOf, nameOf, List.getElem?_append_left hplace]

/-- `addTransition` keeps the objects, their names and the keys. -/
theorem extends_addTransition (fromName toName : String) :
    Extends machine (machine.addTransition fromName toName).1 := by
  unfold addTransition
  split
  · exact .refl _
  · split
    · exact .refl _
    · refine ⟨by simp, fun place _ => nameOf_modify _ _ fun _ => rfl, fun key hkey => ?_⟩
      exact Keyed.mem_keys_put.2 (.inr hkey)

/-- The calls of `executeTransition` and what they await change neither the objects nor the
transitions. -/
theorem extends_of_eq {after : StateMachine} (hobjects : after.objects = machine.objects)
    (htransitions : after.transitions = machine.transitions) : Extends machine after := by
  refine ⟨by rw [hobjects], fun place _ => ?_, fun key hkey => htransitions ▸ hkey⟩
  rw [nameOf, nameOf, hobjects]

/-- The answer of a guard changes no state and no transition. -/
theorem guarded_frame (place : ℕ) (answer : Option Bool) :
    (machine.guarded place answer).objects = machine.objects ∧
      (machine.guarded place answer).transitions = machine.transitions ∧
      (machine.guarded place answer).states = machine.states := by
  unfold guarded
  split <;> exact ⟨rfl, rfl, rfl⟩

/-- The return of `before` changes no state and no transition. -/
theorem entered_frame (place : ℕ) (returned : Bool) :
    (machine.entered place returned).objects = machine.objects ∧
      (machine.entered place returned).transitions = machine.transitions ∧
      (machine.entered place returned).states = machine.states := by
  unfold entered
  split
  · split <;> exact ⟨rfl, rfl, rfl⟩
  · exact ⟨rfl, rfl, rfl⟩

/-- The return of `after` changes no state, no transition and not which state is current. -/
theorem left_frame (place : ℕ) (returned : Bool) (now : ℕ) :
    (machine.left place returned now).objects = machine.objects ∧
      (machine.left place returned now).transitions = machine.transitions ∧
      (machine.left place returned now).states = machine.states ∧
      (machine.left place returned now).currentState = machine.currentState := by
  unfold left
  split
  · split
    · exact ⟨rfl, rfl, rfl, rfl⟩
    · split
      · exact ⟨rfl, rfl, rfl, rfl⟩
      · split <;> exact ⟨rfl, rfl, rfl, rfl⟩
  · exact ⟨rfl, rfl, rfl, rfl⟩

/-- Every event but a reset keeps the objects, their names and the keys. -/
theorem extends_step (machine : StateMachine) (event : Event) (hreset : event ≠ .reset) :
    Extends machine (machine.step event).1 := by
  cases event with
  | addState name defer => exact extends_addState name defer
  | addTransition fromName toName => exact extends_addTransition fromName toName
  | lock name => exact extends_setLock true name
  | unlock name => exact extends_setLock false name
  | executeTransition toState =>
    refine extends_of_eq ?_ ?_ <;> rw [step] <;> split <;> rfl
  | guarded place answer =>
    exact extends_of_eq (guarded_frame place answer).1 (guarded_frame place answer).2.1
  | entered place returned =>
    exact extends_of_eq (entered_frame place returned).1 (entered_frame place returned).2.1
  | left place returned now =>
    exact extends_of_eq (left_frame place returned now).1 (left_frame place returned now).2.1
  | clearHistory => exact extends_of_eq rfl rfl
  | reset => exact absurd rfl hreset

/-- What the tests of `executeTransition` find, where they find no fault. -/
theorem checkTransition_ok {target current : ℕ} (h : machine.checkTransition target = .ok current) :
    machine.currentState = some current ∧
      transitionKey (machine.nameOf current) (machine.nameOf target) ∈
        machine.transitions.map Transition.key ∧
      (machine.allowSelfTransitions = true ∨ current ≠ target) ∧
      machine.isLocked current = false ∧ machine.isLocked target = false := by
  unfold checkTransition at h
  cases hcurrent : machine.currentState with
  | none => rw [hcurrent] at h; cases h
  | some state =>
    simp only [hcurrent] at h
    split at h
    · cases h
    · rename_i hfound
      split at h
      · cases h
      · rename_i hself
        split at h
        · cases h
        · rename_i hlocked
          cases h
          rw [Option.isNone_iff_eq_none, Keyed.find_eq_none_iff, not_not] at hfound
          simp only [Bool.and_eq_true, Bool.not_eq_true', decide_eq_true_eq, not_and] at hself
          simp only [Bool.or_eq_true, not_or, Bool.not_eq_true] at hlocked
          refine ⟨rfl, hfound, ?_, hlocked⟩
          cases hallowed : machine.allowSelfTransitions with
          | true => exact .inl rfl
          | false => exact .inr (hself hallowed)

/-- What an event leaves in flight was in flight, or has just been checked. -/
inductive InFlight (machine : StateMachine) (place checked target : ℕ) : Event → Stage → Prop where
  /-- The event is not about this call. -/
  | waits {event : Event} {stage : Stage}
      (hcall : machine.calls[place]? = some (.inFlight checked target stage)) :
      InFlight machine place checked target event stage
  | made {toState : Target} (hplace : place = machine.calls.length)
      (hmade : machine.made toState = true) (htarget : machine.target? toState = .ok target)
      (hcheck : machine.checkTransition target = .ok checked) :
      InFlight machine place checked target (.executeTransition toState) .guard
  | guarded (hcall : machine.calls[place]? = some (.inFlight checked target .guard)) :
      InFlight machine place checked target (.guarded place (some true))
        (.before machine.currentState)
  | entered {fromState : Option ℕ}
      (hcall : machine.calls[place]? = some (.inFlight checked target (.before fromState))) :
      InFlight machine place checked target (.entered place true) (.after fromState)

/-- Locking and unlocking a state leaves the calls. -/
theorem calls_setLock (locked : Bool) (name : String) :
    (machine.setLock locked name).1.calls = machine.calls := by
  unfold setLock
  split
  · rfl
  · split <;> rfl

/-- A call written over another one. -/
theorem of_getElem?_set {calls : List Call} {place other : ℕ} {call found : Call}
    (h : (calls.set other call)[place]? = some found) :
    place = other ∧ found = call ∨ calls[place]? = some found := by
  rw [List.getElem?_set] at h
  split_ifs at h with heq hlt
  · exact .inl ⟨heq.symm, (Option.some.inj h).symm⟩
  · exact .inr h

/-- What an event leaves in flight was in flight before, or has just been checked. -/
theorem calls_step {event : Event} {place checked target : ℕ} {stage : Stage}
    (h : (machine.step event).1.calls[place]? = some (.inFlight checked target stage)) :
    InFlight machine place checked target event stage := by
  cases event with
  | addState name defer =>
    refine .waits ?_
    rw [← h, step, addState]
    split
    · rfl
    · split <;> rfl
  | addTransition fromName toName =>
    refine .waits ?_
    rw [← h, step, addTransition]
    split
    · rfl
    · split <;> rfl
  | lock name => exact .waits (by rw [← h, step, lock, calls_setLock])
  | unlock name => exact .waits (by rw [← h, step, unlock, calls_setLock])
  | executeTransition toState =>
    rw [step] at h
    split at h
    · rename_i hmade
      -- The list of the calls is extended, so the calls before this one are as they were.
      rcases Nat.lt_or_ge place machine.calls.length with hlt | hge
      · exact .waits ((List.getElem?_append_left hlt).symm.trans h)
      · -- The call is the new one.
        have hnew := (List.getElem?_append_right hge).symm.trans h
        rw [List.getElem?_singleton] at hnew
        split at hnew
        · rename_i hplace
          rw [Option.some_inj] at hnew
          cases htarget : machine.target? toState with
          | error message => rw [htarget] at hnew; cases hnew
          | ok found =>
            simp only [htarget] at hnew
            cases hcheck : machine.checkTransition found with
            | error message => rw [hcheck] at hnew; cases hnew
            | ok current =>
              rw [hcheck] at hnew
              cases hnew
              exact .made (by omega) hmade htarget hcheck
        · cases hnew
    · exact .waits h
  | guarded other answer =>
    rw [step, guarded] at h
    split at h
    · rename_i hcall
      -- Only the call that was answered has changed, and it goes on if the guard agrees.
      rcases of_getElem?_set h with ⟨rfl, heq⟩ | hold
      · cases answer with
        | none => cases heq
        | some answer =>
          cases answer with
          | false => cases heq
          | true => cases heq; exact .guarded hcall
      · exact .waits hold
    · exact .waits h
  | entered other returned =>
    rw [step, entered] at h
    split at h
    · rename_i hcall
      split at h
      · rename_i hreturned
        subst hreturned
        rcases of_getElem?_set h with ⟨rfl, heq⟩ | hold
        · cases heq
          exact .entered hcall
        · exact .waits hold
      · rcases of_getElem?_set h with ⟨rfl, heq⟩ | hold
        · cases heq
        · exact .waits hold
    · exact .waits h
  | left other returned now =>
    -- Whatever `after` does, the call that it belongs to is no longer in flight.
    have hset : (machine.left other returned now).calls = machine.calls ∨
        ∃ call, (∀ checked target stage, call ≠ .inFlight checked target stage) ∧
          (machine.left other returned now).calls = machine.calls.set other call := by
      unfold left
      split
      · refine .inr ?_
        split
        · exact ⟨.passedOn, by simp, rfl⟩
        · split
          · exact ⟨.returned, by simp, rfl⟩
          · split
            · exact ⟨.passedOn, by simp, rfl⟩
            · exact ⟨.returned, by simp, rfl⟩
      · exact .inl rfl
    rw [step] at h
    rcases hset with hset | ⟨call, hdone, hset⟩
    · exact .waits (hset ▸ h)
    · rw [hset] at h
      rcases of_getElem?_set h with ⟨rfl, heq⟩ | hold
      · exact absurd heq.symm (hdone _ _ _)
      · exact .waits hold
  | clearHistory => exact .waits h
  | reset => exact .waits h

/-- What an event does to the current state. -/
inductive Current (machine : StateMachine) : Event → Option ℕ → Prop where
  | stays (event : Event) : Current machine event machine.currentState
  /-- The first state that is added, where it is not deferred. -/
  | first {name : String} (hnone : machine.currentState = none)
      (hmade : machine.objects.length < (machine.addState name false).1.objects.length) :
      Current machine (.addState name false) (some machine.objects.length)
  | entered {place checked target : ℕ} {fromState : Option ℕ}
      (hcall : machine.calls[place]? = some (.inFlight checked target (.before fromState))) :
      Current machine (.entered place true) (some target)
  | reset : Current machine .reset none

/-- Locking and unlocking a state changes neither the current state nor the map of states. -/
theorem current_setLock (locked : Bool) (name : String) :
    (machine.setLock locked name).1.currentState = machine.currentState ∧
      (machine.setLock locked name).1.states = machine.states := by
  unfold setLock
  split
  · exact ⟨rfl, rfl⟩
  · split <;> exact ⟨rfl, rfl⟩

/-- `addTransition` changes neither the current state nor the map of states. -/
theorem addTransition_frame (fromName toName : String) :
    (machine.addTransition fromName toName).1.currentState = machine.currentState ∧
      (machine.addTransition fromName toName).1.states = machine.states := by
  unfold addTransition
  split
  · exact ⟨rfl, rfl⟩
  · split <;> exact ⟨rfl, rfl⟩

/-- A call of `executeTransition` changes neither the current state nor the map of states, before
its guard answers. -/
theorem executeTransition_frame (toState : Target) :
    (machine.step (.executeTransition toState)).1.currentState = machine.currentState ∧
      (machine.step (.executeTransition toState)).1.states = machine.states := by
  rw [step]
  split <;> exact ⟨rfl, rfl⟩

/-- The answer of a guard leaves the current state. -/
theorem guarded_currentState (place : ℕ) (answer : Option Bool) :
    (machine.guarded place answer).currentState = machine.currentState := by
  unfold guarded
  split <;> rfl

/-- An event changes the current state as `Current` says. -/
theorem current_step (machine : StateMachine) (event : Event) :
    Current machine event (machine.step event).1.currentState := by
  have hsame : (machine.step event).1.currentState = machine.currentState →
      Current machine event (machine.step event).1.currentState := fun h => h ▸ .stays event
  cases event with
  | addState name defer =>
    rw [step, addState]
    split
    · exact .stays _
    · rename_i hnew
      split
      · exact .stays _
      · rename_i hname
        show Current machine _ (if _ then _ else _)
        split
        · rename_i hfirst
          rw [Bool.and_eq_true, Option.isNone_iff_eq_none, Bool.not_eq_true'] at hfirst
          -- The first state that is not deferred becomes the current one.
          rw [hfirst.2]
          refine .first hfirst.1 ?_
          rw [addState, if_neg hnew, if_neg hname]
          simp
        · exact .stays _
  | addTransition fromName toName => exact hsame (addTransition_frame fromName toName).1
  | lock name => exact hsame (current_setLock true name).1
  | unlock name => exact hsame (current_setLock false name).1
  | executeTransition toState => exact hsame (executeTransition_frame toState).1
  | guarded place answer => exact hsame (guarded_currentState place answer)
  | entered place returned =>
    rw [step, entered]
    split
    · rename_i hcall
      split
      · rename_i hreturned
        subst hreturned
        exact .entered hcall
      · exact .stays _
    · exact .stays _
  | left place returned now => exact hsame (left_frame place returned now).2.2.2
  | clearHistory => exact .stays _
  | reset => exact .reset

/-- What an event does to the names of the states. -/
theorem states_step (machine : StateMachine) (event : Event) :
    (machine.step event).1.states = machine.states ∨ (machine.step event).1.states = [] ∨
      ∃ name, (machine.step event).1.states = machine.states ++ [(name, machine.objects.length)] ∧
        machine.objects.length < (machine.step event).1.objects.length := by
  cases event with
  | addState name defer =>
    rw [step, addState]
    split
    · exact .inl rfl
    · split
      · exact .inl rfl
      · exact .inr (.inr ⟨name, rfl, by simp⟩)
  | addTransition fromName toName => exact .inl (addTransition_frame fromName toName).2
  | lock name => exact .inl (current_setLock true name).2
  | unlock name => exact .inl (current_setLock false name).2
  | executeTransition toState => exact .inl (executeTransition_frame toState).2
  | guarded place answer => exact .inl (guarded_frame place answer).2.2
  | entered place returned => exact .inl (entered_frame place returned).2.2
  | left place returned now => exact .inl (left_frame place returned now).2.2.1
  | clearHistory => exact .inl rfl
  | reset => exact .inr (.inl rfl)

/-- The object of a target is one of those made. -/
theorem Sound.target_lt (h : machine.Sound) {toState : Target} {target : ℕ}
    (hmade : machine.made toState = true) (htarget : machine.target? toState = .ok target) :
    target < machine.objects.length := by
  cases toState with
  | name name =>
    rw [target?, getState?] at htarget
    cases hfind : Keyed.find Prod.fst name machine.states with
    | none => rw [hfind] at htarget; cases htarget
    | some entry =>
      rw [hfind] at htarget
      cases htarget
      exact h.state entry (Keyed.key_of_find hfind).1
  | object place =>
    cases htarget
    exact of_decide_eq_true hmade

/-- Every event but a reset keeps a machine sound. -/
theorem Sound.step (h : machine.Sound) {event : Event} (hreset : event ≠ .reset) :
    (machine.step event).1.Sound := by
  have hextends := extends_step machine event hreset
  refine ⟨?_, ?_, ?_⟩
  · rcases states_step machine event with heq | heq | ⟨name, heq, hlt⟩
    · rw [heq]
      exact fun entry hentry => lt_of_lt_of_le (h.state entry hentry) hextends.objects
    · rw [heq]
      exact fun entry hentry => absurd hentry List.not_mem_nil
    · rw [heq]
      intro entry hentry
      rcases List.mem_append.1 hentry with hentry | hentry
      · exact lt_of_lt_of_le (h.state entry hentry) hextends.objects
      · rwa [List.mem_singleton.1 hentry]
  · intro place hplace
    have hcurrent := current_step machine event
    generalize hafter : (machine.step event).1.currentState = after at hcurrent hplace
    cases hcurrent with
    | stays => exact lt_of_lt_of_le (h.current place hplace) hextends.objects
    | first _ hmade =>
      cases hplace
      exact hmade
    | entered hcall =>
      cases hplace
      exact lt_of_lt_of_le (h.call (List.mem_of_getElem? hcall)).2.1 hextends.objects
    | reset => cases hplace
  · intro checked target stage hmem
    obtain ⟨place, hplace⟩ := List.mem_iff_getElem?.1 hmem
    -- Whatever is in flight, its objects stay and so does the key of its transition.
    have hkept : checked < machine.objects.length ∧ target < machine.objects.length ∧
        transitionKey (machine.nameOf checked) (machine.nameOf target) ∈
          machine.transitions.map Transition.key := by
      cases calls_step hplace with
      | waits hcall => exact h.call (List.mem_of_getElem? hcall)
      | made _ hmade htarget hcheck =>
        obtain ⟨hcurrent, hkey, -⟩ := checkTransition_ok hcheck
        exact ⟨h.current _ hcurrent, h.target_lt hmade htarget, hkey⟩
      | guarded hcall => exact h.call (List.mem_of_getElem? hcall)
      | entered hcall => exact h.call (List.mem_of_getElem? hcall)
    obtain ⟨hchecked, htarget, hkey⟩ := hkept
    refine ⟨lt_of_lt_of_le hchecked hextends.objects, lt_of_lt_of_le htarget hextends.objects, ?_⟩
    rw [hextends.nameOf _ hchecked, hextends.nameOf _ htarget]
    exact hextends.keys _ hkey

/-! ## Moves -/

/-- What an event adds to the way of the machine: the state that it starts in, or the transition
that a call was checked for, when the call makes its target the current state. -/
def edge (machine : StateMachine) : Event → List (Option ℕ × Option ℕ)
  | .addState name defer =>
    match machine.currentState, (machine.addState name defer).1.currentState with
    | none, some place => [(none, some place)]
    | _, _ => []
  | .entered place true =>
    match machine.calls[place]? with
    | some (.inFlight checked target (.before _)) => [(some checked, some target)]
    | _ => []
  | _ => []

/-- When `before` has returned, the target is the current state. -/
theorem entered_currentState {place checked target : ℕ} {fromState : Option ℕ}
    (hcall : machine.calls[place]? = some (.inFlight checked target (.before fromState))) :
    (machine.entered place true).currentState = some target := by
  rw [entered, hcall]
  rfl

/-- When `before` has returned, the call makes the transition that it was checked for. -/
theorem edge_entered {place checked target : ℕ} {fromState : Option ℕ}
    (hcall : machine.calls[place]? = some (.inFlight checked target (.before fromState))) :
    machine.edge (.entered place true) = [(some checked, some target)] := by
  rw [edge, hcall]

/-- A call that is not where `before` has returned is not moved on by it. -/
theorem edge_not_entered {place : ℕ} (hcall : ∀ checked target fromState,
    machine.calls[place]? ≠ some (.inFlight checked target (.before fromState))) :
    machine.edge (.entered place true) = [] ∧
      (machine.entered place true).currentState = machine.currentState := by
  rw [edge, entered]
  constructor
  · split
    · rename_i h
      exact absurd h (hcall _ _ _)
    · rfl
  · split
    · rename_i h
      exact absurd h (hcall _ _ _)
    · rfl

/-- An event that adds nothing leaves the current state, and one that adds a transition leaves its
target. -/
theorem edge_step (machine : StateMachine) {event : Event} (hreset : event ≠ .reset) :
    machine.edge event = [] ∧ (machine.step event).1.currentState = machine.currentState ∨
      ∃ e, machine.edge event = [e] ∧ e.2 = (machine.step event).1.currentState := by
  cases event with
  | addState name defer =>
    have hcurrent := current_step machine (.addState name defer)
    rw [step] at hcurrent ⊢
    rw [edge]
    -- The first state added is an edge from no state.
    generalize (machine.addState name defer).1.currentState = after at hcurrent ⊢
    cases hcurrent with
    | stays =>
      left
      cases machine.currentState with
      | none => exact ⟨rfl, rfl⟩
      | some place => exact ⟨rfl, rfl⟩
    | first hnone _ =>
      rw [hnone]
      exact .inr ⟨_, rfl, rfl⟩
  | entered place returned =>
    cases returned with
    | false =>
      refine .inl ⟨rfl, ?_⟩
      rw [step, entered]
      split <;> rfl
    | true =>
      by_cases hcall : ∃ checked target fromState,
          machine.calls[place]? = some (.inFlight checked target (.before fromState))
      · -- The call makes the transition that it was checked for.
        obtain ⟨checked, target, fromState, hcall⟩ := hcall
        exact .inr ⟨_, edge_entered hcall, (entered_currentState hcall).symm⟩
      · refine .inl (edge_not_entered fun checked target fromState heq => ?_)
        exact hcall ⟨checked, target, fromState, heq⟩
  | addTransition fromName toName => exact .inl ⟨rfl, (addTransition_frame fromName toName).1⟩
  | lock name => exact .inl ⟨rfl, (current_setLock true name).1⟩
  | unlock name => exact .inl ⟨rfl, (current_setLock false name).1⟩
  | executeTransition toState => exact .inl ⟨rfl, (executeTransition_frame toState).1⟩
  | guarded place answer => exact .inl ⟨rfl, guarded_currentState place answer⟩
  | left place returned now => exact .inl ⟨rfl, (left_frame place returned now).2.2.2⟩
  | clearHistory => exact .inl ⟨rfl, rfl⟩
  | reset => exact absurd rfl hreset

/-- A call enters its target while another state than the one it was checked in is the current
one. -/
def EntersLate (machine : StateMachine) (event : Event) : Prop :=
  ∃ place checked target fromState, event = .entered place true ∧
    machine.calls[place]? = some (.inFlight checked target (.before fromState)) ∧
    machine.currentState ≠ some checked

/-- The transition that an event makes starts at the current state just if no call enters its target
late. -/
theorem edge_starts_iff {event : Event} :
    (∀ e ∈ machine.edge event, e.1 = machine.currentState) ↔ ¬machine.EntersLate event := by
  constructor
  · rintro h ⟨place, checked, target, fromState, rfl, hcall, hlate⟩
    rw [edge_entered hcall, List.forall_mem_singleton] at h
    exact hlate h.symm
  · intro h e he
    cases event with
    | addState name defer =>
      rw [edge] at he
      split at he
      · rename_i hnone _
        rw [List.mem_singleton.1 he, hnone]
      · cases he
    | entered place returned =>
      cases returned with
      | false => cases he
      | true =>
        rw [edge] at he
        split at he
        · rename_i hcall
          rw [List.mem_singleton.1 he]
          by_contra hlate
          exact h ⟨_, _, _, _, rfl, hcall, fun heq => hlate heq.symm⟩
        · cases he
    | _ => cases he

/-- The transition that a call makes was found when the call was checked. -/
theorem Sound.edge_registered (h : machine.Sound) {event : Event} {checked target : ℕ}
    (he : (some checked, some target) ∈ machine.edge event) :
    transitionKey (machine.nameOf checked) (machine.nameOf target) ∈
      machine.transitions.map Transition.key := by
  cases event with
  | addState name defer =>
    rw [edge] at he
    split at he
    · cases List.mem_singleton.1 he
    · cases he
  | entered place returned =>
    cases returned with
    | false => cases he
    | true =>
      rw [edge] at he
      split at he
      · rename_i hcall
        cases List.mem_singleton.1 he
        exact (h.call (List.mem_of_getElem? hcall)).2.2
      · cases he
  | _ => cases he

/-- A new machine is sound. -/
theorem sound_newStateMachine (maxHistoryLength : ℕ) (allowSelfTransitions recordHistory : Bool) :
    (newStateMachine maxHistoryLength allowSelfTransitions recordHistory).Sound :=
  ⟨by simp [newStateMachine], by simp [newStateMachine], by simp [newStateMachine]⟩

/-- Whatever the order of the events: for every transition that a call makes, the key of the state
that the call was checked in and of its target is registered, and the machine has come from its
first state to its current one along these transitions exactly if no call entered its target
late. -/
theorem way_is_path_iff (maxHistoryLength : ℕ) (allowSelfTransitions recordHistory : Bool)
    (events : List Event) (hreset : .reset ∉ events) :
    let start := newStateMachine maxHistoryLength allowSelfTransitions recordHistory
    (∀ move ∈ Runs.moves step start events, ∀ checked target,
        (some checked, some target) ∈ move.1.edge move.2 →
          transitionKey (move.1.nameOf checked) (move.1.nameOf target) ∈
            move.1.transitions.map Transition.key) ∧
      (Runs.Linked none (Runs.outputs step edge start events)
          (Runs.final step start events).currentState ↔
        ∀ move ∈ Runs.moves step start events, ¬move.1.EntersLate move.2) := by
  intro start
  have hevents : ∀ move ∈ Runs.moves step start events, move.2 ≠ .reset := fun move hmove heq =>
    hreset (heq ▸ Runs.snd_mem_of_mem_moves hmove)
  have hsound := sound_newStateMachine maxHistoryLength allowSelfTransitions recordHistory
  constructor
  · intro move hmove checked target he
    have hmoves := (Runs.moves_of_step (C := fun _ event => event ≠ .reset)
      (fun _ _ h hevent => h.step hevent) start events hsound hevents).1
    exact (hmoves move hmove).edge_registered he
  · refine (Runs.linked_outputs_iff (P := Sound) (C := fun _ event => event ≠ .reset)
      (fun _ _ h hevent => h.step hevent) (fun machine _ _ hevent => edge_step machine hevent)
      start events hsound hevents).trans ?_
    exact forall₂_congr fun move _ => edge_starts_iff

/-- Two calls that are checked in the same state, and both answered: the second one enters its
target from the first one's. -/
def overlapping : List Event :=
  [.addState "a" false, .addState "b" false, .addState "c" false, .addTransition "a" "b",
    .addTransition "a" "c", .executeTransition (.name "b"), .executeTransition (.name "c"),
    .guarded 0 (some true), .entered 0 true, .left 0 true 1, .guarded 1 (some true),
    .entered 1 true, .left 1 true 2]

/-- The overlapping calls take the machine from `b` to `c`, where there is no transition. -/
theorem way_is_path_iff_overlapping :
    let start := newStateMachine 0 false true
    ¬Runs.Linked none (Runs.outputs step edge start overlapping)
      (Runs.final step start overlapping).currentState := by
  intro start hpath
  have h := (way_is_path_iff 0 false true overlapping (by decide)).2.1 hpath
  refine h (Runs.final step start (overlapping.take 11), .entered 1 true) ?_
    ⟨1, 0, 2, some 1, rfl, by decide, by decide⟩
  rw [List.mem_iff_getElem?]
  exact ⟨11, by decide⟩

end StateMachine

end LibPolyCall.Node
