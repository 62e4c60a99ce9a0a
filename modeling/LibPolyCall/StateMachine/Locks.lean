import LibPolyCall.StateMachine.Invariant

/-!
# Locks

A lock on a state is looked at by `execute_transition`, at both ends of the transition, and by the
restoration of a snapshot. So as long as a state stays locked, no transition enters it and neither
of the two calls writes to it. Nothing looks at the lock of the state that the machine is in: a
transition between two other states takes the machine out of it. That does not happen as long as
only transitions that leave the current state are fired (`lock_isolates_iff`).
-/

namespace LibPolyCall.StateMachine

open Bytes CStrings Runs

variable {o : ByteOrder} {sm : PolyCallStateMachine} {k : UInt32}

/-- The state is registered and locked. -/
structure Locked (k : UInt32) (sm : PolyCallStateMachine) : Prop where
  registered : k.toNat < sm.numStates
  isLocked : (sm.state k).isLocked = true

/-- The call executes a transition or restores a snapshot. -/
def ExecutesOrRestores (call : Host × Op) : Prop :=
  (∃ name, call.2 = .executeTransition name) ∨
    ∃ snapshot, call.2 = .restoreStateFromSnapshot snapshot

/-- A transition into a locked state is not enabled, and neither is one out of it. -/
theorem Locked.not_enabled (h : Locked k sm) {host : Host} {name : CString}
    {t : PolyCallTransition} (ht : Enabled host sm name t) : t.fromState ≠ k ∧ t.toState ≠ k := by
  obtain ⟨-, hlocked⟩ := h
  refine ⟨fun hk => ?_, fun hk => ?_⟩
  · have hfrom := ht.from_unlocked
    rw [hk, hlocked] at hfrom
    exact absurd hfrom (by decide)
  · have hto := ht.to_unlocked
    rw [hk, hlocked] at hto
    exact absurd hto (by decide)

/-- A locked state stays locked unless it is unlocked, and is not written to by an execution or a
restoration. -/
theorem Locked.kept (h : Locked k sm) (call : Host × Op) (hno : call.2 ≠ .unlockState k) :
    Locked k (step o sm call).1 ∧
      (ExecutesOrRestores call → (step o sm call).1.state k = sm.state k) := by
  obtain ⟨host, op⟩ := call
  have hregistered := h.registered.trans_le (numStates_le_step o sm (host, op))
  have hchange := step_change o sm (host, op)
  generalize step o sm (host, op) = r at hregistered hchange ⊢
  -- What leaves the record of the state as it was leaves it locked.
  have hkept : r.1.state k = sm.state k →
      Locked k r.1 ∧ (ExecutesOrRestores (host, op) → r.1.state k = sm.state k) := by
    intro hsame
    exact ⟨⟨hregistered, by rw [hsame]; exact h.isLocked⟩, fun _ => hsame⟩
  have hwrite : ∀ (j : UInt32) (f : PolyCallState → PolyCallState), j ≠ k →
      (sm.modifyState j f).state k = sm.state k := fun j f hj => by
    rw [state_modifyState f h.registered, if_neg hj.symm]
  cases hchange with
  | failed status failures hstatus hfailures => exact hkept rfl
  | stateAdded name onEnter onExit isFinal hroom => exact hkept (state_append rfl h.registered)
  | transitionAdded name fromState toState action guard hroom hfrom hto => exact hkept rfl
  | entered name t henabled =>
    exact hkept (hwrite t.toState (updateStateTimestamp host.now) (h.not_enabled henabled).2)
  | locked stateId hid =>
    refine ⟨⟨hregistered, ?_⟩, ?_⟩
    · rw [state_modifyState _ h.registered]
      split_ifs
      · rfl
      · exact h.isLocked
    · rintro (⟨name, hop⟩ | ⟨snapshot, hop⟩) <;> cases hop
  | unlocked stateId hid =>
    exact hkept (hwrite stateId _ fun hk => hno (by rw [← hk]))
  | snapshotTaken stateId hid => exact hkept rfl
  | restored snapshot hid hunlocked hversion =>
    refine hkept (hwrite snapshot.state.id _ fun hk => ?_)
    rw [hk, h.isLocked] at hunlocked
    exact absurd hunlocked (by decide)

/-- Where a call takes a machine whose state `k` is locked: it stays, or it goes by an enabled
transition to another state than `k`. -/
theorem Locked.currentState_step (h : Locked k sm) (call : Host × Op) :
    (step o sm call).1.currentState = sm.currentState ∨
      ((step o sm call).1.currentState ≠ k ∧
        ∃ name t, call.2 = .executeTransition (some name) ∧ Enabled call.1 sm name t ∧
          t.fromState ≠ k) := by
  rcases step_cases o sm call with ⟨t, hexec, heq⟩ | ⟨-, hstay, -⟩
  · obtain ⟨name, hop, ht⟩ := executedTransition_eq_some_iff.1 hexec
    obtain ⟨hfrom, hto⟩ := h.not_enabled ht
    rw [heq]
    exact .inr ⟨hto, name, t, hop, ht, hfrom⟩
  · exact .inl hstay

/-- A successful lock sets the flag of a registered state. -/
theorem lockState_of_success {host : Host} (h : (lockState host sm k).1 = .success) :
    k.toNat < sm.numStates ∧
      (lockState host sm k).2 =
        sm.modifyState k fun s => updateStateTimestamp host.now { s with isLocked := true } := by
  unfold lockState setLock at h ⊢
  split_ifs at h ⊢ with hinit hid
  exact ⟨Nat.lt_of_not_le hid, rfl⟩

/-- A state that has just been locked is locked. -/
theorem locked_lockState {host : Host} (h : (lockState host sm k).1 = .success) :
    Locked k (lockState host sm k).2 := by
  obtain ⟨hk, heq⟩ := lockState_of_success h
  rw [heq]
  refine ⟨?_, ?_⟩
  · rw [numStates_modifyState]
    exact hk
  · rw [state_modifyState _ hk, if_pos rfl]
    rfl

/-- The isolation of a state `k` in a run: the machine is in `k` throughout the run exactly when it
is at its start, and no execution and no restoration changes the record of `k`. -/
structure Isolated (o : ByteOrder) (k : UInt32) (sm : PolyCallStateMachine)
    (calls : List (Host × Op)) : Prop where
  during : ∀ m ∈ moves (step o) sm calls, m.1.currentState = k ↔ sm.currentState = k
  after : (final (step o) sm calls).currentState = k ↔ sm.currentState = k
  kept : ∀ m ∈ moves (step o) sm calls, ExecutesOrRestores m.2 →
    (step o m.1 m.2).1.state k = m.1.state k

section Runs

variable {calls : List (Host × Op)}

/-- A locked state stays locked in a run that does not unlock it, and with it whatever the steps
of such a run keep under a condition. -/
theorem Locked.run {P : PolyCallStateMachine → Prop} {C : PolyCallStateMachine → Host × Op → Prop}
    (hstep : ∀ s call, Locked k s → P s → C s call → P (step o s call).1) (h : Locked k sm)
    (hP : P sm) (hno : ∀ c ∈ calls, c.2 ≠ .unlockState k)
    (hC : ∀ m ∈ moves (step o) sm calls, C m.1 m.2) :
    (∀ m ∈ moves (step o) sm calls, Locked k m.1 ∧ P m.1) ∧ P (final (step o) sm calls) := by
  have hrun := moves_of_step (P := fun s => Locked k s ∧ P s)
    (C := fun s call => call.2 ≠ .unlockState k ∧ C s call)
    (fun s call hs hcall => ⟨(hs.1.kept call hcall.1).1, hstep s call hs.1 hs.2 hcall.2⟩)
    sm calls ⟨h, hP⟩ fun m hm => ⟨hno m.2 (snd_mem_of_mem_moves hm), hC m hm⟩
  exact ⟨hrun.1, hrun.2.2⟩

/-- A run in which the machine is in `k` exactly when it was keeps `k` isolated, when it is
locked and stays so. -/
theorem Locked.isolated (h : Locked k sm) (hno : ∀ c ∈ calls, c.2 ≠ .unlockState k)
    (hplace : (∀ m ∈ moves (step o) sm calls, m.1.currentState = k ↔ sm.currentState = k) ∧
      ((final (step o) sm calls).currentState = k ↔ sm.currentState = k)) :
    Isolated o k sm calls := by
  have hlocked := (h.run (o := o) (P := fun _ => True) (C := fun _ _ => True)
    (fun _ _ _ _ _ => trivial) trivial hno fun _ _ => trivial).1
  refine ⟨hplace.1, hplace.2, fun m hm => ?_⟩
  exact ((hlocked m hm).1.kept m.2 (hno m.2 (snd_mem_of_mem_moves hm))).2

/-- A machine that is not in a locked state does not enter it. -/
theorem Locked.stays_out (h : Locked k sm) (hno : ∀ c ∈ calls, c.2 ≠ .unlockState k)
    (hout : sm.currentState ≠ k) : Isolated o k sm calls := by
  have hrun := h.run (o := o) (P := fun s => s.currentState ≠ k) (C := fun _ _ => True)
    (fun s call hs hout _ => by
      rcases hs.currentState_step (o := o) call with hstay | ⟨hother, -⟩
      · rw [hstay]
        exact hout
      · exact hother)
    hout hno fun _ _ => trivial
  refine h.isolated hno ⟨fun m hm => ?_, ?_⟩
  · exact iff_of_false (hrun.1 m hm).2 hout
  · exact iff_of_false hrun.2 hout

/-- A machine in a locked state stays there when only transitions that leave the current state are
fired: such a transition is not enabled. -/
theorem Locked.stays_in (h : Locked k sm) (hno : ∀ c ∈ calls, c.2 ≠ .unlockState k)
    (hin : sm.currentState = k)
    (hfires : ∀ m ∈ moves (step o) sm calls, FiresFromCurrent m.1 m.2) :
    Isolated o k sm calls := by
  have hrun := h.run (P := fun s => s.currentState = k) (C := FiresFromCurrent)
    (fun s call hs hin hfires => by
      rcases hs.currentState_step (o := o) call with hstay | ⟨-, name, t, hop, ht, hfrom⟩
      · rw [hstay]
        exact hin
      · exact absurd ((hfires name t hop ht).trans hin) hfrom)
    hin hno hfires
  refine h.isolated hno ⟨fun m hm => ?_, ?_⟩
  · exact iff_of_true (hrun.1 m hm).2 hin
  · exact iff_of_true hrun.2 hin

/-- While the machine is in a locked state and stays there, no transition is enabled at all where
one is asked for. -/
theorem Locked.fires_of_isolated (h : Locked k sm) (hno : ∀ c ∈ calls, c.2 ≠ .unlockState k)
    (hin : sm.currentState = k) (hisolated : Isolated o k sm calls) :
    ∀ m ∈ moves (step o) sm calls, FiresFromCurrent m.1 m.2 := by
  have hlocked := (h.run (o := o) (P := fun _ => True) (C := fun _ _ => True)
    (fun _ _ _ _ _ => trivial) trivial hno fun _ _ => trivial).1
  have hnext := next_of_moves (P := fun s => s.currentState = k) sm calls
    (fun m hm => (hisolated.during m hm).2 hin) (hisolated.after.2 hin)
  intro m hm name t hop ht
  -- The transition would be entered, and the machine would leave `k`.
  have henter : (step o m.1 m.2).1.currentState = t.toState := by
    obtain ⟨s, host, op⟩ := m
    dsimp only at hop ht ⊢
    rw [hop, step]
    dsimp only
    rw [executeTransition_of_enabled ht]
    rfl
  exact absurd (henter.symm.trans (hnext m hm)) ((hlocked m hm).1.not_enabled ht).2

end Runs

/-- A lock isolates its state exactly in the runs that start outside of it, or that fire only
transitions that leave the current state. -/
theorem lock_isolates_iff (o : ByteOrder) (sm : PolyCallStateMachine) (host : Host) (k : UInt32)
    (hlock : (lockState host sm k).1 = .success) (calls : List (Host × Op))
    (hno : ∀ c ∈ calls, c.2 ≠ .unlockState k) :
    Isolated o k (lockState host sm k).2 calls ↔
      sm.currentState ≠ k ∨
        ∀ m ∈ moves (step o) (lockState host sm k).2 calls, FiresFromCurrent m.1 m.2 := by
  have hlocked := locked_lockState hlock
  have hstay : (lockState host sm k).2.currentState = sm.currentState := by
    rw [(lockState_of_success hlock).2]
    rfl
  constructor
  · intro hisolated
    rcases ne_or_eq sm.currentState k with hout | hin
    · exact .inl hout
    · exact .inr (hlocked.fires_of_isolated hno (hstay.trans hin) hisolated)
  · intro h
    rcases ne_or_eq sm.currentState k with hout | hin
    · exact hlocked.stays_out hno (hstay.trans_ne hout)
    · rcases h with hout | hfires
      · exact absurd hin hout
      · exact hlocked.stays_in hno (hstay.trans hin) hfires

/-- The machine of `strayCalls` is in its first state. With the second one locked, the transition
from there is refused, and so is the restoration of a snapshot of it. -/
theorem lock_isolates_iff_stray :
    let sm := final (step .little) freshMachine strayCalls
    Isolated .little 1 (lockState stillHost sm 1).2
      [(stillHost, .executeTransition (some (CString.ofChars ['t']))),
        (stillHost, .restoreStateFromSnapshot (createStateSnapshot .little stillHost sm 1).2)] := by
  intro sm
  exact (lock_isolates_iff .little sm stillHost 1 (by decide) _ (by simp)).2 (.inl (by decide))

/-- The lock on the first state does not keep the machine in it: the transition of `strayCalls`
between the two other states takes the machine out. -/
theorem stray_transition_leaves_locked :
    let sm := final (step .little) freshMachine strayCalls
    Made .little sm ∧ (lockState stillHost sm 0).1 = .success ∧
      ¬ Isolated .little 0 (lockState stillHost sm 0).2
        [(stillHost, .executeTransition (some (CString.ofChars ['t'])))] := by
  intro sm
  refine ⟨(Made.create create_freshMachine).run (by simp [strayCalls]), by decide, ?_⟩
  intro h
  exact absurd (h.after.2 (by decide)) (by decide)

end LibPolyCall.StateMachine
