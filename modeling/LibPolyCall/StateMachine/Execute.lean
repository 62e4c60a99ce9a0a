import LibPolyCall.StateMachine.Machine

/-!
# What `execute_transition` can do

`Enabled` collects the tests that a transition has to pass before `execute_transition` executes
it: the lookup by name finds it, it is valid, neither of its two states is locked, and its guard
accepts them. An enabled transition is entered (`executeTransition_of_enabled`), and without one
the call changes nothing but the failure counter (`executeTransition_of_not_enabled`). Where the
machine is plays no part in either.
-/

namespace LibPolyCall.StateMachine

open CStrings

variable {host : Host} {sm : PolyCallStateMachine} {name : CString}
  {transition : PolyCallTransition}

/-- `execute_transition` by this name passes every test and executes this transition. -/
structure Enabled (host : Host) (sm : PolyCallStateMachine) (name : CString)
    (transition : PolyCallTransition) : Prop where
  initialized : sm.isInitialized = true
  found : sm.findTransition name = some transition
  valid : transition.isValid = true
  from_unlocked : (sm.state transition.fromState).isLocked = false
  to_unlocked : (sm.state transition.toState).isLocked = false
  guarded : transition.guardCondition = 0 ∨
    host.guard transition.guardCondition (sm.state transition.fromState)
      (sm.state transition.toState) = true

/-- The enabled transition of a name is the one that the lookup finds. -/
theorem Enabled.unique {other : PolyCallTransition} (h : Enabled host sm name transition)
    (h' : Enabled host sm name other) : transition = other :=
  Option.some.inj (h.found.symm.trans h'.found)

/-- Some transition of this name is enabled. -/
def CanExecute (host : Host) (sm : PolyCallStateMachine) (name : CString) : Prop :=
  ∃ transition, Enabled host sm name transition

/-- An enabled transition is executed. -/
theorem executeTransition_of_enabled (h : Enabled host sm name transition) :
    executeTransition host sm (some name) =
      ⟨.success, sm.enter host.now transition, sm.actions transition⟩ := by
  obtain ⟨hinit, hfound, hvalid, hfrom, hto, hguard⟩ := h
  unfold executeTransition
  simp only [hinit, hfound, hvalid, hfrom, hto, Bool.not_true, Bool.or_self]
  rcases hguard with hguard | hguard <;> simp [hguard]

/-- Without an enabled transition the call fails, and at most counts the failure. -/
theorem executeTransition_of_not_enabled (h : ¬ CanExecute host sm name) :
    ∃ status failures, status ≠ .success ∧
      (failures = sm.failedTransitions ∨ failures = sm.failedTransitions + 1) ∧
      executeTransition host sm (some name) =
        ⟨status, { sm with failedTransitions := failures }, []⟩ := by
  unfold executeTransition
  split_ifs with hinit
  · exact ⟨.errorInvalidTransition, sm.failedTransitions, by decide, .inl rfl, rfl⟩
  cases hfound : sm.findTransition name with
  | none =>
    simp only [hfound]
    exact ⟨.errorInvalidTransition, sm.failedTransitions + 1, by decide, .inr rfl, rfl⟩
  | some transition =>
    simp only [hfound]
    split_ifs with hvalid hlock hguard
    · exact ⟨.errorInvalidTransition, sm.failedTransitions + 1, by decide, .inr rfl, rfl⟩
    · exact ⟨.errorStateLocked, sm.failedTransitions, by decide, .inl rfl, rfl⟩
    · exact ⟨.errorInvalidTransition, sm.failedTransitions + 1, by decide, .inr rfl, rfl⟩
    · -- Every test is passed, so the transition is enabled.
      simp only [Bool.or_eq_true, not_or, Bool.not_eq_true] at hlock
      exact absurd ⟨transition, by simpa using hinit, hfound, by simpa using hvalid, hlock.1,
        hlock.2, by grind⟩ h

/-- `execute_transition` succeeds exactly on a name with an enabled transition. -/
theorem executeTransition_success_iff :
    (executeTransition host sm (some name)).status = .success ↔ CanExecute host sm name := by
  constructor
  · intro h
    by_contra hno
    obtain ⟨status, failures, hstatus, -, heq⟩ := executeTransition_of_not_enabled hno
    rw [heq] at h
    exact hstatus h
  · rintro ⟨transition, h⟩
    rw [executeTransition_of_enabled h]

/-- Whether a name can be executed is decided by the lookup. -/
instance : Decidable (CanExecute host sm name) :=
  decidable_of_iff _ executeTransition_success_iff

end LibPolyCall.StateMachine
