import LibPolyCall.StateMachine.Requests

/-!
# The shape of the machines that the interface makes

`Made` are the machines that `create_with_integrity` makes and that calls have changed since. The
snapshots that are restored come from `create_state_snapshot` on machines that were made in the
same way, not necessarily the same one.

What holds of every record that `add_state` registers, and does not depend on the fields that the
later calls rewrite in place (`KeptByWrites`), holds of every registered state
(`Made.forall_states`): a restoration writes back a record of which it holds too. The indices and
names of the states are of this kind. With the ends of the transitions and the current state, they
make up `WellFormed`, and in a well-formed machine no call indexes outside the registered entries
(`indexed_registered`).
-/

namespace LibPolyCall.StateMachine

open Bytes CStrings Runs

variable {o : ByteOrder} {sm : PolyCallStateMachine}

/-- A machine that the interface made. -/
inductive Made (o : ByteOrder) : PolyCallStateMachine → Prop where
  | create {ctx integrityCheck : Ptr} {allocated : Bool} {sm : PolyCallStateMachine}
      (hcreate : createWithIntegrity ctx integrityCheck allocated = (.success, some sm)) :
      Made o sm
  /-- Any call with any arguments, unless it restores a snapshot. -/
  | call {sm : PolyCallStateMachine} (call : Host × Op) (hmade : Made o sm)
      (hop : ∀ snapshot, call.2 ≠ .restoreStateFromSnapshot (some snapshot)) :
      Made o (step o sm call).1
  /-- A restoration, with what `create_state_snapshot` filled in for some such machine. -/
  | restore {sm source : PolyCallStateMachine} (host host' : Host) (stateId : UInt32)
      (snapshot : PolyCallStateSnapshot) (hmade : Made o sm) (hsource : Made o source)
      (hsnapshot : createStateSnapshot o host' source stateId = (.success, some snapshot)) :
      Made o (step o sm (host, .restoreStateFromSnapshot (some snapshot))).1

/-- Calls that restore no snapshot lead from a machine that was made to another one. -/
theorem Made.run (hmade : Made o sm) {calls : List (Host × Op)}
    (hcalls : ∀ c ∈ calls, ∀ snapshot, c.2 ≠ .restoreStateFromSnapshot (some snapshot)) :
    Made o (final (step o) sm calls) :=
  (moves_of_step (P := Made o)
    (C := fun _ c => ∀ snapshot, c.2 ≠ .restoreStateFromSnapshot (some snapshot))
    (fun _ c h hc => h.call c hc) sm calls hmade
    fun m hm => hcalls m.2 (snd_mem_of_mem_moves hm)).2

/-- A created machine has no states and no transitions. -/
theorem createWithIntegrity_success {ctx integrityCheck : Ptr} {allocated : Bool}
    (h : createWithIntegrity ctx integrityCheck allocated = (.success, some sm)) :
    sm.states = [] ∧ sm.transitions = [] ∧ sm.currentState = 0 ∧
      sm.integrityCheck = integrityCheck ∧ sm.isInitialized = true := by
  unfold createWithIntegrity at h
  split_ifs at h with hctx hallocated <;> simp only [Prod.mk.injEq, reduceCtorEq, false_and] at h
  rw [← Option.some.inj h.2]
  exact ⟨rfl, rfl, rfl, rfl, rfl⟩

/-- A successful snapshot holds the record of a registered state. -/
theorem createStateSnapshot_success {host : Host} {stateId : UInt32}
    {snapshot : PolyCallStateSnapshot}
    (h : createStateSnapshot o host sm stateId = (.success, some snapshot)) :
    stateId.toNat < sm.numStates ∧ snapshot.state = sm.state stateId := by
  unfold createStateSnapshot at h
  dsimp only at h
  split_ifs at h with hinit hid <;> simp only [Prod.mk.injEq, reduceCtorEq, false_and] at h
  exact ⟨Nat.lt_of_not_le hid, by rw [← Option.some.inj h.2]⟩

/-! ## The registered states -/

/-- A property of the records that `add_state` registers, which does not depend on the fields that
are rewritten in place. -/
structure KeptByWrites (o : ByteOrder) (P : PolyCallState → Prop) : Prop where
  new : ∀ now id name onEnter onExit isFinal, P (newState o now id name onEnter onExit isFinal)
  rewritten : ∀ state timestamp version isLocked, P state →
    P { state with timestamp, version, isLocked }

/-- Every registered state has its index for its id, and the property holds of it. -/
structure Records (P : PolyCallState → Prop) (sm : PolyCallStateMachine) : Prop where
  numStates_le : sm.numStates ≤ maxStates
  id_eq : ∀ i, i.toNat < sm.numStates → (sm.state i).id = i
  prop : ∀ i, i.toNat < sm.numStates → P (sm.state i)

section Records

variable {P : PolyCallState → Prop}

/-- A write to a state keeps the records, when what it writes is a record for that index. -/
theorem Records.modifyState (h : Records P sm) {j : UInt32} {f : PolyCallState → PolyCallState}
    (hf : j.toNat < sm.numStates → (f (sm.state j)).id = j ∧ P (f (sm.state j))) :
    Records P (sm.modifyState j f) := by
  obtain ⟨hle, hid, hprop⟩ := h
  have hstate : ∀ i, i.toNat < (sm.modifyState j f).numStates →
      ((sm.modifyState j f).state i).id = i ∧ P ((sm.modifyState j f).state i) := by
    intro i hi
    rw [numStates_modifyState] at hi
    rw [state_modifyState f hi]
    split_ifs with hij
    · subst hij
      exact hf hi
    · exact ⟨hid i hi, hprop i hi⟩
  refine ⟨?_, fun i hi => (hstate i hi).1, fun i hi => (hstate i hi).2⟩
  rw [numStates_modifyState]
  exact hle

/-- A state that is updated in place keeps its record. -/
theorem Records.rewrite (h : Records P sm) (hP : KeptByWrites o P) {j : UInt32} (now : UInt64)
    (isLocked : PolyCallState → Bool) :
    Records P (sm.modifyState j fun s =>
      updateStateTimestamp now { s with isLocked := isLocked s }) :=
  h.modifyState fun hj =>
    ⟨h.id_eq j hj, hP.rewritten (sm.state j) now ((sm.state j).version + 1) (isLocked (sm.state j))
      (h.prop j hj)⟩

/-- A state added to a table that is not full has its index for its id. -/
theorem Records.append (h : Records P sm) (hP : KeptByWrites o P) (hroom : sm.numStates < maxStates)
    (now : UInt64) (name : CString) (onEnter onExit : Ptr) (isFinal : Bool) :
    Records P { sm with
      states := sm.states ++ [newState o now sm.numStates name onEnter onExit isFinal] } := by
  obtain ⟨hle, hid, hprop⟩ := h
  set state := newState o now sm.numStates name onEnter onExit isFinal with hnew
  have hnum : ({ sm with states := sm.states ++ [state] } : PolyCallStateMachine).numStates =
      sm.numStates + 1 := List.length_append
  have hstate : ∀ i : UInt32, i.toNat < sm.numStates + 1 →
      (({ sm with states := sm.states ++ [state] } : PolyCallStateMachine).state i).id = i ∧
        P (({ sm with states := sm.states ++ [state] } : PolyCallStateMachine).state i) := by
    intro i hi
    rcases Nat.lt_or_eq_of_le (Nat.le_of_lt_succ hi) with hlt | heq
    · rw [state_append rfl hlt]
      exact ⟨hid i hlt, hprop i hlt⟩
    · rw [state_append_self rfl heq, hnew]
      refine ⟨?_, hP.new _ _ _ _ _ _⟩
      -- The id is the number of states, which fits in 32 bits because the table is not full.
      show UInt32.ofNat sm.numStates = i
      rw [← heq, UInt32.ofNat_toNat]
  refine ⟨?_, fun i hi => (hstate i (hnum ▸ hi)).1, fun i hi => (hstate i (hnum ▸ hi)).2⟩
  rw [hnum]
  exact hroom

/-- Every call keeps the records, when a snapshot that it restores is one. -/
theorem Records.step (h : Records P sm) (hP : KeptByWrites o P) (call : Host × Op)
    (hrestore : ∀ snapshot, call.2 = .restoreStateFromSnapshot (some snapshot) →
      P snapshot.state) :
    Records P (step o sm call).1 := by
  obtain ⟨host, op⟩ := call
  have hchange := step_change o sm (host, op)
  generalize StateMachine.step o sm (host, op) = r at hchange ⊢
  cases hchange with
  | failed status failures hstatus hfailures => exact ⟨h.1, h.2, h.3⟩
  | stateAdded name onEnter onExit isFinal hroom =>
    exact h.append hP hroom host.now name onEnter onExit isFinal
  | transitionAdded name fromState toState action guard hroom hfrom hto => exact ⟨h.1, h.2, h.3⟩
  | entered name t henabled =>
    have hwritten := h.rewrite hP (j := t.toState) host.now fun s => s.isLocked
    exact ⟨hwritten.1, hwritten.2, hwritten.3⟩
  | locked stateId hid => exact h.rewrite hP host.now fun _ => true
  | unlocked stateId hid => exact h.rewrite hP host.now fun _ => false
  | snapshotTaken stateId hid => exact h
  | restored snapshot hid hunlocked hversion =>
    -- The snapshot is written at the index that it names itself.
    exact h.modifyState fun _ => ⟨rfl, hP.rewritten _ _ _ _ (hrestore snapshot rfl)⟩

/-- What does not depend on the fields that are rewritten in place holds of every registered state
of every machine that was made. -/
theorem Made.records (hP : KeptByWrites o P) (h : Made o sm) : Records P sm := by
  induction h with
  | @create _ _ _ sm hcreate =>
    have hnum : sm.numStates = 0 := by
      rw [PolyCallStateMachine.numStates, (createWithIntegrity_success hcreate).1, List.length_nil]
    refine ⟨?_, ?_, ?_⟩ <;> rw [hnum]
    · exact Nat.zero_le _
    · exact fun i hi => absurd hi (Nat.not_lt_zero _)
    · exact fun i hi => absurd hi (Nat.not_lt_zero _)
  | call call hmade hop ih => exact ih.step hP call fun snapshot h => absurd h (hop snapshot)
  | restore host host' stateId snapshot hmade hsource hsnapshot ih ihsource =>
    obtain ⟨hid, hstate⟩ := createStateSnapshot_success hsnapshot
    refine ih.step hP _ fun snapshot' heq => ?_
    have hsame : snapshot = snapshot' := by simpa using heq
    rw [← hsame, hstate]
    exact ihsource.prop stateId hid

end Records

/-! ## The whole machine -/

/-- The names of registered states are terminated. -/
theorem keptByWrites_terminated (o : ByteOrder) :
    KeptByWrites o fun state => (0 : UInt8) ∈ state.name.toList where
  new _ _ name _ _ _ := by
    show 0 ∈ (CharArray.copy maxNameLength name).toList
    exact CharArray.zero_mem_copy (by decide) name
  rewritten _ _ _ _ h := h

/-- The shape of a machine. -/
structure WellFormed (sm : PolyCallStateMachine) : Prop where
  numStates_le : sm.numStates ≤ maxStates
  numTransitions_le : sm.numTransitions ≤ maxTransitions
  id_eq : ∀ i, i.toNat < sm.numStates → (sm.state i).id = i
  name_terminated : ∀ i, i.toNat < sm.numStates → 0 ∈ (sm.state i).name.toList
  ends_lt : ∀ t ∈ sm.transitions,
    t.fromState.toNat < sm.numStates ∧ t.toState.toNat < sm.numStates
  currentState_lt : sm.currentState.toNat < sm.numStates ∨
    (sm.numStates = 0 ∧ sm.currentState = 0)

/-- The transitions of a machine and its current state stay within its states. -/
structure Inside (sm : PolyCallStateMachine) : Prop where
  numTransitions_le : sm.numTransitions ≤ maxTransitions
  ends_lt : ∀ t ∈ sm.transitions,
    t.fromState.toNat < sm.numStates ∧ t.toState.toNat < sm.numStates
  currentState_lt : sm.currentState.toNat < sm.numStates ∨
    (sm.numStates = 0 ∧ sm.currentState = 0)

/-- More states leave everything inside, when the transitions and the current state stay. -/
theorem Inside.mono {sm' : PolyCallStateMachine} (h : Inside sm)
    (htransitions : sm'.transitions = sm.transitions)
    (hcurrent : sm'.currentState = sm.currentState) (hnum : sm.numStates ≤ sm'.numStates) :
    Inside sm' := by
  obtain ⟨hle, hends, hlt⟩ := h
  refine ⟨?_, ?_, ?_⟩
  · unfold PolyCallStateMachine.numTransitions
    rw [htransitions]
    exact hle
  · rw [htransitions]
    intro t ht
    obtain ⟨hfrom, hto⟩ := hends t ht
    omega
  · rw [hcurrent]
    rcases hlt with hlt | ⟨-, hcs⟩
    · exact .inl (hlt.trans_le hnum)
    · -- With a first state, the current state `0` is registered.
      rcases Nat.eq_zero_or_pos sm'.numStates with hzero | hpos
      · exact .inr ⟨hzero, hcs⟩
      · rw [hcs]
        exact .inl hpos

/-- Every call keeps the transitions and the current state within the states. -/
theorem Inside.step (h : Inside sm) (call : Host × Op) : Inside (step o sm call).1 := by
  obtain ⟨host, op⟩ := call
  have hchange := step_change o sm (host, op)
  generalize StateMachine.step o sm (host, op) = r at hchange ⊢
  cases hchange with
  | failed status failures hstatus hfailures => exact h.mono rfl rfl (Nat.le_refl _)
  | stateAdded name onEnter onExit isFinal hroom =>
    exact h.mono rfl rfl (List.prefix_append _ _).length_le
  | transitionAdded name fromState toState action guard hroom hfrom hto =>
    refine ⟨?_, ?_, h.currentState_lt⟩
    · unfold PolyCallStateMachine.numTransitions at hroom ⊢
      rw [List.length_append]
      exact hroom
    · intro t ht
      rw [List.mem_append, List.mem_singleton] at ht
      rcases ht with ht | rfl
      · exact h.ends_lt t ht
      · exact ⟨hfrom, hto⟩
  | entered name t henabled =>
    have hends := h.ends_lt t (List.mem_of_find?_eq_some henabled.found)
    refine ⟨h.numTransitions_le, ?_, .inl ?_⟩
    · rw [numStates_enter]
      exact h.ends_lt
    · rw [numStates_enter]
      exact hends.2
  | locked stateId hid => exact h.mono rfl rfl (numStates_modifyState _).ge
  | unlocked stateId hid => exact h.mono rfl rfl (numStates_modifyState _).ge
  | snapshotTaken stateId hid => exact h
  | restored snapshot hid hunlocked hversion => exact h.mono rfl rfl (numStates_modifyState _).ge

/-- The transitions and the current state of a machine that was made stay within its states. -/
theorem Made.inside (h : Made o sm) : Inside sm := by
  induction h with
  | create hcreate =>
    obtain ⟨hstates, htransitions, hcurrent, -⟩ := createWithIntegrity_success hcreate
    refine ⟨?_, ?_, .inr ⟨?_, hcurrent⟩⟩
    · rw [PolyCallStateMachine.numTransitions, htransitions]
      exact Nat.zero_le _
    · rw [htransitions]
      exact fun t ht => absurd ht List.not_mem_nil
    · rw [PolyCallStateMachine.numStates, hstates, List.length_nil]
  | call call hmade hop ih => exact ih.step call
  | restore host host' stateId snapshot hmade hsource hsnapshot ih ihsource => exact ih.step _

/-- A machine that was made is well formed. -/
theorem Made.wellFormed (h : Made o sm) : WellFormed sm := by
  obtain ⟨hnum, hid, hname⟩ := h.records (keptByWrites_terminated o)
  obtain ⟨hle, hends, hcurrent⟩ := h.inside
  exact ⟨hnum, hle, hid, hname, hends, hcurrent⟩

/-! ## The entries that a call looks at -/

/-- An entry of one of the two arrays of a machine, by its index. -/
inductive Cell where
  | state (i : ℕ)
  | transition (i : ℕ)

/-- The entry is one of the registered ones. -/
def Cell.Registered (sm : PolyCallStateMachine) : Cell → Prop
  | .state i => i < sm.numStates
  | .transition i => i < sm.numTransitions

/-- The states indexed with an id that is compared with `num_states` first. -/
def checkedState (sm : PolyCallStateMachine) (stateId : UInt32) : List Cell :=
  if !sm.isInitialized then []
  else if sm.numStates ≤ stateId.toNat then []
  else [.state stateId.toNat]

/-- The transitions indexed by the loop of `execute_transition`: up to the one found. -/
def searchedTransitions (sm : PolyCallStateMachine) (name : CString) : List Cell :=
  let found := sm.transitions.findIdx fun t => t.name.text = name.bytes
  (List.range (min (found + 1) sm.numTransitions)).map .transition

/-- The entries that a request reads or rewrites, beside those that it adds. -/
def indexed (sm : PolyCallStateMachine) : Request → List Cell
  | .op (.executeTransition (some name)) =>
    if !sm.isInitialized then []
    else
      match sm.findTransition name with
      | none => searchedTransitions sm name
      | some t =>
        if !t.isValid then searchedTransitions sm name
        else searchedTransitions sm name ++ [.state t.fromState.toNat, .state t.toState.toNat]
  | .op (.lockState stateId) => checkedState sm stateId
  | .op (.unlockState stateId) => checkedState sm stateId
  | .op (.createStateSnapshot stateId) => checkedState sm stateId
  | .op (.restoreStateFromSnapshot (some snapshot)) => checkedState sm snapshot.state.id
  | .verifyStateIntegrity stateId => checkedState sm stateId
  | .getStateVersion stateId true => checkedState sm stateId
  | .getStateDiagnostics stateId true => checkedState sm stateId
  | _ => []

/-- An id that is compared with `num_states` first is that of a registered state. -/
theorem checkedState_registered {stateId : UInt32} :
    ∀ c ∈ checkedState sm stateId, c.Registered sm := by
  intro c hc
  unfold checkedState at hc
  split_ifs at hc with hinit hid
  · exact absurd hc List.not_mem_nil
  · exact absurd hc List.not_mem_nil
  · rw [List.mem_singleton] at hc
    rw [hc]
    exact Nat.lt_of_not_le hid

/-- The search for a transition stays within the registered ones. -/
theorem searchedTransitions_registered {name : CString} :
    ∀ c ∈ searchedTransitions sm name, c.Registered sm := by
  intro c hc
  obtain ⟨i, hi, rfl⟩ := List.mem_map.1 hc
  rw [List.mem_range] at hi
  exact hi.trans_le (Nat.min_le_right _ _)

/-- In a well-formed machine, every entry that a request looks at is a registered one. -/
theorem indexed_registered (h : WellFormed sm) (request : Request) :
    ∀ c ∈ indexed sm request, c.Registered sm := by
  unfold indexed
  split
  · rename_i name
    split_ifs with hinit
    · exact fun c hc => absurd hc List.not_mem_nil
    cases hfound : sm.findTransition name with
    | none => exact searchedTransitions_registered
    | some t =>
      -- The ids that index the states here were stored by an `add_transition` long before.
      obtain ⟨hfrom, hto⟩ := h.ends_lt t (List.mem_of_find?_eq_some hfound)
      dsimp only
      split_ifs with hvalid
      · exact searchedTransitions_registered
      · intro c hc
        rw [List.mem_append] at hc
        rcases hc with hc | hc
        · exact searchedTransitions_registered c hc
        · simp only [List.mem_cons, List.not_mem_nil, or_false] at hc
          rcases hc with rfl | rfl
          · exact hfrom
          · exact hto
  all_goals first
    | exact checkedState_registered
    | exact fun c hc => absurd hc List.not_mem_nil

/-- Every machine that the interface makes is well formed, and no call on it looks at an entry that
is not registered. -/
theorem shape_of_made (h : Made o sm) :
    WellFormed sm ∧ ∀ request, ∀ c ∈ indexed sm request, c.Registered sm :=
  ⟨h.wellFormed, indexed_registered h.wellFormed⟩

/-- The calls of `strayCalls` make a machine of this shape. -/
theorem shape_of_made_stray :
    WellFormed (final (step .little) freshMachine strayCalls) ∧
      ∀ request, ∀ c ∈ indexed (final (step .little) freshMachine strayCalls) request,
        c.Registered (final (step .little) freshMachine strayCalls) :=
  shape_of_made ((Made.create create_freshMachine).run (by simp [strayCalls]))

end LibPolyCall.StateMachine
