import LibPolyCall.Library.Window
import LibPolyCall.Node.Overlaps

/-!
# Transitions one at a time

When no call of `executeTransition` is made while another one is in flight, the machine is always
where the call has got to (`Single`), so no call enters its target late, and what the history
records are transitions that were registered (`serial_run`). In any order of events the history
holds the last records (`history_run`).
-/

namespace LibPolyCall.Node

namespace StateMachine

variable {machine : StateMachine}

/-! ## Calls one at a time -/

/-- The call has not ended. -/
def Call.isInFlight : Call → Bool
  | .inFlight _ _ _ => true
  | _ => false

/-- The event is no call of `executeTransition` while another one is in flight. -/
def apart (machine : StateMachine) : Event → Bool
  | .executeTransition _ => !machine.calls.any Call.isInFlight
  | _ => true

/-- Where a call of `executeTransition` is apart, none is in flight. -/
theorem not_inFlight_of_apart {toState : Target}
    (h : machine.apart (.executeTransition toState) = true) {place checked target : ℕ}
    {stage : Stage} :
    machine.calls[place]? ≠ some (.inFlight checked target stage) := by
  intro hcall
  rw [apart, Bool.not_eq_true', List.any_eq_false] at h
  exact h _ (List.mem_of_getElem? hcall) rfl

/-- Where a call has got to, there is the machine. -/
def Stage.Fits (current : Option ℕ) (checked target : ℕ) : Stage → Prop
  | .guard => current = some checked
  | .before fromState => current = some checked ∧ fromState = some checked
  | .after fromState => current = some target ∧ fromState = some checked

/-- One call at most is in flight, and the machine is where it has got to. -/
structure Single (machine : StateMachine) : Prop where
  one : ∀ {i j checked target checked' target' : ℕ} {stage stage' : Stage},
    machine.calls[i]? = some (.inFlight checked target stage) →
      machine.calls[j]? = some (.inFlight checked' target' stage') → i = j
  fits : ∀ {i checked target : ℕ} {stage : Stage},
    machine.calls[i]? = some (.inFlight checked target stage) →
      Stage.Fits machine.currentState checked target stage

/-- While a call is in flight, there is a current state. -/
theorem Stage.Fits.ne_none {current : Option ℕ} {checked target : ℕ} {stage : Stage}
    (h : Stage.Fits current checked target stage) : current ≠ none := by
  rintro rfl
  cases stage with
  | guard => cases h
  | before fromState => cases h.1
  | after fromState => cases h.1

/-- When `before` has returned, the call waits for `after`. -/
theorem entered_call {place checked target : ℕ} {fromState : Option ℕ}
    (hcall : machine.calls[place]? = some (.inFlight checked target (.before fromState))) :
    (machine.entered place true).calls[place]? =
      some (.inFlight checked target (.after fromState)) := by
  rw [entered, hcall]
  exact List.getElem?_set_self (List.getElem?_eq_some_iff.1 hcall).1

/-- What is in flight after an event was in flight before, or is the call that the event makes. -/
theorem InFlight.before {event : Event} {place checked target : ℕ} {stage : Stage}
    (h : InFlight machine place checked target event stage) :
    (∃ stage', machine.calls[place]? = some (.inFlight checked target stage')) ∨
      place = machine.calls.length ∧ ∃ toState, event = .executeTransition toState := by
  cases h with
  | waits hcall => exact .inl ⟨_, hcall⟩
  | made hplace _ _ _ => exact .inr ⟨hplace, _, rfl⟩
  | guarded hcall => exact .inl ⟨_, hcall⟩
  | entered hcall => exact .inl ⟨_, hcall⟩

/-- Apart from the others, a call keeps the machine single. -/
theorem Single.step (h : machine.Single) {event : Event} (hreset : event ≠ .reset)
    (hapart : machine.apart event = true) : (machine.step event).1.Single := by
  constructor
  · intro i j checked target checked' target' stage stage' hi hj
    rcases (calls_step hi).before with ⟨_, hi'⟩ | ⟨hi', hevent⟩
    · rcases (calls_step hj).before with ⟨_, hj'⟩ | ⟨_, _, rfl⟩
      · exact h.one hi' hj'
      · exact absurd hi' (not_inFlight_of_apart hapart)
    · rcases (calls_step hj).before with ⟨_, hj'⟩ | ⟨hj', _⟩
      · obtain ⟨_, rfl⟩ := hevent
        exact absurd hj' (not_inFlight_of_apart hapart)
      · rw [hi', hj']
  · intro i checked target stage hi
    have hcurrent := current_step machine event
    cases calls_step hi with
    | waits hcall =>
      have hfits := h.fits hcall
      generalize (machine.step event).1.currentState = after at hcurrent ⊢
      cases hcurrent with
      | stays => exact hfits
      | first hnone _ => exact absurd hnone hfits.ne_none
      | entered hentered =>
        -- It is the call itself that goes on, and it does not wait.
        obtain rfl := h.one hcall hentered
        rw [StateMachine.step, entered_call hentered] at hi
        rw [hentered] at hcall
        cases hcall
        cases hi
      | reset => exact absurd rfl hreset
    | made hplace hmade htarget hcheck =>
      rw [(executeTransition_frame _).1]
      exact (checkTransition_ok hcheck).1
    | guarded hcall =>
      rw [StateMachine.step, guarded_currentState]
      exact ⟨h.fits hcall, h.fits hcall⟩
    | entered hcall => exact ⟨entered_currentState hcall, (h.fits hcall).2⟩

/-- In a machine that is single no call enters its target late. -/
theorem Single.not_entersLate (h : machine.Single) (event : Event) : ¬machine.EntersLate event := by
  rintro ⟨place, checked, target, fromState, rfl, hcall, hlate⟩
  exact hlate (h.fits hcall).1

/-! ## The history -/

/-- The record that an event adds to the history. -/
def recorded (machine : StateMachine) : Event → List Record
  | .left place true now =>
    if machine.recordHistory then
      match machine.calls[place]? with
      | some (.inFlight _ target (.after (some fromState))) =>
        [machine.record now fromState target]
      | _ => []
    else []
  | _ => []

/-- The history is no longer than it may be. -/
def Bounded (machine : StateMachine) : Prop := machine.history.length ≤ machine.maxHistoryLength

/-- The last `n` of a list that is not longer are all of it. -/
theorem rtake_of_length_le {α : Type*} {l : List α} {n : ℕ} (h : l.length ≤ n) : l.rtake n = l := by
  rw [List.rtake, Nat.sub_eq_zero_of_le h, List.drop_zero]

/-- `recordTransition` keeps the last records, as many as there may be. -/
theorem recordTransition_history (h : machine.Bounded) (now fromState toState : ℕ) :
    (machine.recordTransition now fromState toState).history =
      (machine.history ++ [machine.record now fromState toState]).rtake
        machine.maxHistoryLength := by
  have hlength : machine.history.length ≤ machine.maxHistoryLength := h
  rw [recordTransition]
  show (if _ then _ else _) = _
  split_ifs with hlong
  · rw [List.length_append, List.length_singleton] at hlong
    rw [List.rtake, List.length_append, List.length_singleton]
    congr 1
    omega
  · rw [rtake_of_length_le (Nat.le_of_not_lt hlong)]

/-- What an event leaves of the history where it adds no record. -/
theorem history_frame (machine : StateMachine) {event : Event}
    (hleft : ∀ place returned now, event ≠ .left place returned now)
    (hclear : event ≠ .clearHistory) (hreset : event ≠ .reset) :
    (machine.step event).1.history = machine.history ∧
      (machine.step event).1.maxHistoryLength = machine.maxHistoryLength := by
  -- Locking and unlocking share their body.
  have hlock : ∀ locked name, (machine.setLock locked name).1.history = machine.history ∧
      (machine.setLock locked name).1.maxHistoryLength = machine.maxHistoryLength := by
    intro locked name
    unfold setLock
    split
    · exact ⟨rfl, rfl⟩
    · split <;> exact ⟨rfl, rfl⟩
  cases event with
  | addState name defer =>
    rw [step, addState]
    split
    · exact ⟨rfl, rfl⟩
    · split <;> exact ⟨rfl, rfl⟩
  | addTransition fromName toName =>
    rw [step, addTransition]
    split
    · exact ⟨rfl, rfl⟩
    · split <;> exact ⟨rfl, rfl⟩
  | lock name => exact hlock true name
  | unlock name => exact hlock false name
  | executeTransition toState =>
    rw [step]
    split <;> exact ⟨rfl, rfl⟩
  | guarded place answer =>
    rw [step, guarded]
    split <;> exact ⟨rfl, rfl⟩
  | entered place returned =>
    rw [step, entered]
    split
    · split <;> exact ⟨rfl, rfl⟩
    · exact ⟨rfl, rfl⟩
  | left place returned now => exact absurd rfl (hleft place returned now)
  | clearHistory => exact absurd rfl hclear
  | reset => exact absurd rfl hreset

/-- An event other than `clearHistory` and `reset` adds its record, and the oldest goes when there
are too many. -/
theorem history_step (h : machine.Bounded) {event : Event} (hclear : event ≠ .clearHistory)
    (hreset : event ≠ .reset) :
    (machine.step event).1.history =
        (machine.history ++ machine.recorded event).rtake machine.maxHistoryLength ∧
      (machine.step event).1.maxHistoryLength = machine.maxHistoryLength := by
  have hkept : (machine.history ++ []).rtake machine.maxHistoryLength = machine.history := by
    rw [List.append_nil, rtake_of_length_le h]
  -- Only the return of `after` adds a record.
  by_cases hleft : ∃ place returned now, event = .left place returned now
  · obtain ⟨place, returned, now, rfl⟩ := hleft
    -- Where nothing is recorded, the history is the one that was there.
    have hsame : ∀ after : StateMachine, machine.recorded (.left place returned now) = [] →
        after.history = machine.history → after.maxHistoryLength = machine.maxHistoryLength →
        after.history = (machine.history ++ machine.recorded (.left place returned now)).rtake
          machine.maxHistoryLength ∧ after.maxHistoryLength = machine.maxHistoryLength := by
      intro after hnone hhistory hmax
      rw [hnone, hkept]
      exact ⟨hhistory, hmax⟩
    rw [step, left]
    split
    · rename_i checked target fromState hcall
      cases returned with
      | false => exact hsame _ rfl rfl rfl
      | true =>
        cases hrecord : machine.recordHistory with
        | false => refine hsame _ ?_ ?_ ?_ <;> simp [recorded, hrecord]
        | true =>
          cases fromState with
          | none => refine hsame _ ?_ ?_ ?_ <;> simp [recorded, hcall]
          | some fromState =>
            have hone : machine.recorded (.left place true now) =
                [machine.record now fromState target] := by simp [recorded, hcall, hrecord]
            rw [hone]
            exact ⟨recordTransition_history h now fromState target, rfl⟩
    · rename_i hcall
      refine hsame _ ?_ rfl rfl
      cases returned with
      | false => rfl
      | true =>
        rw [recorded]
        split_ifs
        · split
          · rename_i hafter
            exact absurd hafter (hcall _ _ _)
          · rfl
        · rfl
  · -- All other events record nothing.
    have hrecorded : machine.recorded event = [] := by
      cases event with
      | left place returned now => exact absurd ⟨_, _, _, rfl⟩ hleft
      | _ => rfl
    rw [hrecorded, hkept]
    refine history_frame machine (fun place returned now heq => ?_) hclear hreset
    exact hleft ⟨_, _, _, heq⟩

/-- The history of a run that does not clear it: the last records, as many as there may be. -/
theorem history_run {machine : StateMachine} (h : machine.Bounded) {events : List Event}
    (hclear : .clearHistory ∉ events) (hreset : .reset ∉ events) :
    (Runs.final step machine events).history =
      (machine.history ++ Runs.outputs step recorded machine events).rtake
        machine.maxHistoryLength := by
  induction events generalizing machine with
  | nil => rw [Runs.outputs_nil, List.append_nil, rtake_of_length_le h, Runs.final_nil]
  | cons event events ih =>
    rw [List.mem_cons, not_or] at hclear hreset
    obtain ⟨hhistory, hmax⟩ := history_step h (Ne.symm hclear.1) (Ne.symm hreset.1)
    have hbounded : (machine.step event).1.Bounded := by
      rw [Bounded, hhistory, hmax, List.rtake, List.length_drop]
      omega
    rw [Runs.final_cons, Runs.outputs_cons, ih hbounded hclear.2 hreset.2, hhistory, hmax,
      List.rtake_rtake_append, List.append_assoc]

/-- The records of the history are of registered transitions. -/
def RecordsRegistered (machine : StateMachine) : Prop :=
  ∀ record ∈ machine.history, transitionKey record.fromName record.toName ∈
    machine.transitions.map Transition.key

/-- In a machine that is single, the keys of what is recorded are registered. -/
theorem Single.recorded_registered (h : machine.Single) (hsound : machine.Sound) {event : Event}
    {record : Record} (hrecord : record ∈ machine.recorded event) :
    transitionKey record.fromName record.toName ∈ machine.transitions.map Transition.key := by
  cases event with
  | left place returned now =>
    cases returned with
    | false => cases hrecord
    | true =>
      rw [recorded] at hrecord
      split_ifs at hrecord
      · split at hrecord
        · rename_i hcall
          rw [List.mem_singleton.1 hrecord]
          cases (h.fits hcall).2
          exact (hsound.call (List.mem_of_getElem? hcall)).2.2
        · cases hrecord
      · cases hrecord
  | _ => cases hrecord

/-- An event of such a machine keeps the keys of its history registered, and the history bounded. -/
theorem Single.recordsRegistered_step (h : machine.Single) (hsound : machine.Sound)
    (hrecords : machine.RecordsRegistered) (hbounded : machine.Bounded) {event : Event}
    (hreset : event ≠ .reset) :
    (machine.step event).1.RecordsRegistered ∧ (machine.step event).1.Bounded := by
  have hextends := extends_step machine event hreset
  by_cases hclear : event = .clearHistory
  · subst hclear
    exact ⟨fun record hrecord => absurd hrecord List.not_mem_nil, Nat.zero_le _⟩
  · obtain ⟨hhistory, hmax⟩ := history_step hbounded hclear hreset
    constructor
    · intro record hrecord
      rw [hhistory, List.rtake] at hrecord
      rcases List.mem_append.1 (List.mem_of_mem_drop hrecord) with hold | hnew
      · exact hextends.keys _ (hrecords record hold)
      · exact hextends.keys _ (h.recorded_registered hsound hnew)
    · rw [Bounded, hhistory, hmax, List.rtake, List.length_drop]
      omega

/-- One transition after the other, from `a` to `b` and to `c`. -/
def inTurn : List Event :=
  [.addState "a" false, .addState "b" false, .addState "c" false, .addTransition "a" "b",
    .addTransition "b" "c", .executeTransition (.name "b"), .guarded 0 (some true),
    .entered 0 true, .left 0 true 1, .executeTransition (.name "c"), .guarded 1 (some true),
    .entered 1 true, .left 1 true 2]

end StateMachine

end LibPolyCall.Node
