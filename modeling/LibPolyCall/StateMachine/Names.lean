import LibPolyCall.StateMachine.Invariant

/-!
# The names of transitions

`add_transition` stores a name in a fixed array, and cuts it off where it is too long;
`execute_transition` compares the whole name that it is given with the stored ones, and takes the
first that is equal. The stored names are those of the successful registrations, cut off, in order
(`names_final`). So a name leads back to the transition that was registered under it exactly if it
fits into the array and no longer name that starts with it was registered earlier
(`found_by_name_iff`).
-/

namespace LibPolyCall.StateMachine

open Bytes CStrings Runs

variable {o : ByteOrder} {sm : PolyCallStateMachine} {name : CString}

/-- The names in the table of transitions, as `strcmp` reads them. -/
def PolyCallStateMachine.names (sm : PolyCallStateMachine) : List (List UInt8) :=
  sm.transitions.map fun t => t.name.text

/-- The index of the transition that `execute_transition` selects for a name. -/
def PolyCallStateMachine.selected (sm : PolyCallStateMachine) (name : CString) : Option ℕ :=
  sm.names.findIdx? (· = name.bytes)

/-- The lookup of `execute_transition` gives the transition at the index that is selected. -/
theorem findTransition_eq (sm : PolyCallStateMachine) (name : CString) :
    sm.findTransition name = (sm.selected name).bind fun i => sm.transitions[i]? := by
  have hselected : sm.selected name =
      sm.transitions.findIdx? fun t => t.name.text = name.bytes :=
    List.findIdx?_map
  rw [hselected]
  exact List.find?_eq_bind_findIdx?_getElem?

/-- The lookup selects the first stored name that is equal. -/
theorem selected_eq_some_iff {i : ℕ} :
    sm.selected name = some i ↔
      sm.names[i]? = some name.bytes ∧ ∀ j, j < i → sm.names[j]? ≠ some name.bytes := by
  unfold PolyCallStateMachine.selected
  rw [List.findIdx?_eq_some_iff_getElem]
  simp only [decide_eq_true_eq]
  constructor
  · rintro ⟨hi, hname, hbefore⟩
    refine ⟨by rw [List.getElem?_eq_getElem hi, hname], fun j hj hsame => ?_⟩
    obtain ⟨_, hj'⟩ := List.getElem?_eq_some_iff.1 hsame
    exact hbefore j hj hj'
  · rintro ⟨hname, hbefore⟩
    obtain ⟨hi, hname⟩ := List.getElem?_eq_some_iff.1 hname
    refine ⟨hi, hname, fun j hj hsame => hbefore j hj ?_⟩
    rw [List.getElem?_eq_getElem (hj.trans hi), hsame]

/-- The name that a call asks to register a transition under. -/
def Op.transitionName : Op → Option CString
  | .addTransition name _ _ _ _ => name
  | _ => none

/-- The name under which a call registers a transition, if it does. -/
def registered (o : ByteOrder) (sm : PolyCallStateMachine) (call : Host × Op) : List CString :=
  if (step o sm call).2.status = .success then call.2.transitionName.toList else []

/-- A name as it is stored. -/
def cut (name : CString) : List UInt8 := name.bytes.take (maxNameLength - 1)

/-- A call stores the name of the transition that it registers, and no other. -/
theorem names_step (o : ByteOrder) (sm : PolyCallStateMachine) (call : Host × Op) :
    (step o sm call).1.names = sm.names ++ (registered o sm call).map cut := by
  obtain ⟨host, op⟩ := call
  unfold registered
  have hchange := step_change o sm (host, op)
  generalize step o sm (host, op) = r at hchange ⊢
  cases hchange with
  | failed status failures hstatus hfailures =>
    rw [if_neg hstatus, List.map_nil, List.append_nil]
    rfl
  | transitionAdded name fromState toState action guard hroom hfrom hto =>
    have hstored : (newTransition name fromState toState action guard).name.text = cut name :=
      CharArray.text_copy _ _
    simp [PolyCallStateMachine.names, Op.transitionName, hstored]
  | stateAdded | entered | locked | unlocked | snapshotTaken | restored =>
    simp [PolyCallStateMachine.names, Op.transitionName, PolyCallStateMachine.enter,
      PolyCallStateMachine.modifyState]

/-- The stored names of a machine at the end of a run: those that it starts with, and those of the
successful registrations, cut off, in order. -/
theorem names_final (o : ByteOrder) :
    ∀ (sm : PolyCallStateMachine) (calls : List (Host × Op)),
      (final (step o) sm calls).names =
        sm.names ++ (outputs (step o) (registered o) sm calls).map cut
  | sm, [] => by simp
  | sm, call :: calls => by
    rw [final_cons, names_final o _ calls, names_step, outputs_cons, List.map_append,
      List.append_assoc]

/-- A transition that was registered as the one of index `k` is found under its name, whatever is
called afterwards: the lookup of the name selects it, and the lookup of another string does not. -/
def FoundByName (o : ByteOrder) (sm : PolyCallStateMachine) (name : CString) (k : ℕ) : Prop :=
  ∀ after : List (Host × Op),
    (final (step o) sm after).selected name = some k ∧
      ∀ other, other ≠ name → (final (step o) sm after).selected other ≠ some k

section Registration

variable {ctx integrityCheck : Ptr} {allocated : Bool} {start : PolyCallStateMachine}
  {fromState toState : UInt32} {action guard : Ptr}

/-- Behind the names that are stored in a run stands the one of the transition that is registered
next. -/
theorem names_added (hcreate : createWithIntegrity ctx integrityCheck allocated =
      (.success, some start)) (before : List (Host × Op))
    (hsuccess : (addTransition (final (step o) start before) (some name) fromState toState action
      guard).1 = .success) :
    (final (step o) start before).numTransitions =
        ((outputs (step o) (registered o) start before).map cut).length ∧
      (addTransition (final (step o) start before) (some name) fromState toState action
          guard).2.names =
        (outputs (step o) (registered o) start before).map cut ++ [cut name] := by
  have hempty : start.names = [] := by
    rw [PolyCallStateMachine.names, (createWithIntegrity_success hcreate).2.1, List.map_nil]
  have hnames := names_final o start before
  rw [hempty, List.nil_append] at hnames
  refine ⟨?_, ?_⟩
  · rw [← hnames, PolyCallStateMachine.names, List.length_map]
    rfl
  · have hstep := names_step o (final (step o) start before)
      (stillHost, .addTransition (some name) fromState toState action guard)
    have hregistered : registered o (final (step o) start before)
        (stillHost, .addTransition (some name) fromState toState action guard) = [name] :=
      if_pos hsuccess
    rw [hregistered, hnames] at hstep
    exact hstep

/-- What the lookups select that come after a registration: they select the new transition for the
name that is stored, if no earlier stored name is the same. -/
theorem selected_final {names : List (List UInt8)} (h : sm.names = names ++ [cut name])
    (after : List (Host × Op)) (other : CString) :
    (final (step o) sm after).selected other = some names.length ↔
      cut name = other.bytes ∧ ∀ earlier ∈ names, earlier ≠ other.bytes := by
  have hlast : (final (step o) sm after).names[names.length]? = some (cut name) := by
    rw [names_final, h, List.append_assoc, List.getElem?_append_right (Nat.le_refl _), Nat.sub_self]
    rfl
  have hearlier : ∀ j, j < names.length → (final (step o) sm after).names[j]? = names[j]? := by
    intro j hj
    rw [names_final, h, List.append_assoc, List.getElem?_append_left hj]
  rw [selected_eq_some_iff, hlast, Option.some_inj]
  refine and_congr_right fun _ => ⟨fun hbefore earlier hmem => ?_, fun hbefore j hj => ?_⟩
  · rintro rfl
    obtain ⟨j, hj, hget⟩ := List.getElem_of_mem hmem
    refine hbefore j hj ?_
    rw [hearlier j hj, List.getElem?_eq_getElem hj, hget]
  · rw [hearlier j hj, List.getElem?_eq_getElem hj]
    exact fun hsame => hbefore _ (List.getElem_mem hj) (Option.some.inj hsame)

/-- In every run of a machine that was created: a transition that is registered is found under its
name ever after exactly if the name fits into the array and no name was registered earlier that is
stored as this name. -/
theorem found_by_name_iff (hcreate : createWithIntegrity ctx integrityCheck allocated =
      (.success, some start)) (before : List (Host × Op))
    (hsuccess : (addTransition (final (step o) start before) (some name) fromState toState action
      guard).1 = .success) :
    FoundByName o
        (addTransition (final (step o) start before) (some name) fromState toState action guard).2
        name (final (step o) start before).numTransitions ↔
      name.bytes.length < maxNameLength ∧
        ∀ earlier ∈ outputs (step o) (registered o) start before, cut earlier ≠ name.bytes := by
  obtain ⟨hcount, hnames⟩ := names_added hcreate before hsuccess
  have hselected := selected_final (o := o) hnames
  rw [hcount]
  have hfits : cut name = name.bytes ↔ name.bytes.length < maxNameLength := by
    have hmax : maxNameLength = 32 := rfl
    rw [cut, List.take_eq_self_iff, hmax]
    omega
  have hearlier : (∀ earlier ∈ (outputs (step o) (registered o) start before).map cut,
        earlier ≠ name.bytes) ↔
      ∀ earlier ∈ outputs (step o) (registered o) start before, cut earlier ≠ name.bytes :=
    List.forall_mem_map
  rw [← hfits, ← hearlier]
  constructor
  · intro h
    exact (hselected [] name).1 (h []).1
  · rintro ⟨hwhole, hfirst⟩ after
    refine ⟨(hselected after name).2 ⟨hwhole, hfirst⟩, fun other hne hother => hne ?_⟩
    -- The stored name is the whole name, so an equal string is the name.
    have hbytes := ((hselected after other).1 hother).1
    rw [hwhole] at hbytes
    cases name
    cases other
    simpa using hbytes.symm

end Registration

/-- The transition of `strayCalls`, registered behind another one. -/
theorem found_by_name_iff_stray :
    FoundByName .little
      (addTransition (final (step .little) freshMachine strayCalls)
        (some (CString.ofChars ['u'])) 2 1 0 0).2 (CString.ofChars ['u']) 1 :=
  (found_by_name_iff create_freshMachine strayCalls (by decide)).2 ⟨by decide, by decide⟩

/-- A name of 32 bytes is registered, and the lookup does not find it. -/
theorem long_name_lost :
    (addTransition (final (step .little) freshMachine strayCalls)
        (some (CString.ofChars (List.replicate 32 'n'))) 0 1 0 0).1 = .success ∧
      ¬ FoundByName .little
        (addTransition (final (step .little) freshMachine strayCalls)
          (some (CString.ofChars (List.replicate 32 'n'))) 0 1 0 0).2
        (CString.ofChars (List.replicate 32 'n'))
        (final (step .little) freshMachine strayCalls).numTransitions := by
  refine ⟨by decide, fun h => ?_⟩
  exact absurd (h []).1 (by decide)

end LibPolyCall.StateMachine
