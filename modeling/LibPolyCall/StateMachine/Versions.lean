import LibPolyCall.StateMachine.Invariant

/-!
# Versions

Every mutation of a registered state adds one to its version, modulo `2^32`, and nothing else
touches the version: a restoration writes an old version back, but only where the state still has
it, and then adds one like the other mutations. So the version of a state counts its mutations
(`version_final`), and below `2^32` of them it tells whether there has been any. That is what a
restoration tests: it succeeds only on a state that has not been mutated since its snapshot, and
then loses nothing.
-/

namespace LibPolyCall.StateMachine

open Bytes CStrings Runs

variable {o : ByteOrder} {sm : PolyCallStateMachine} {k : UInt32}

/-- The number of mutations of a state in a run. -/
def mutations (o : ByteOrder) (k : UInt32) (sm : PolyCallStateMachine)
    (calls : List (Host × Op)) : ℕ :=
  count (step o) (fun sm call => mutated o sm call = some k) sm calls

/-- The version counts the mutations, modulo `2^32`. -/
theorem version_final (hk : k.toNat < sm.numStates) (calls : List (Host × Op)) :
    ((final (step o) sm calls).state k).version.toNat =
      ((sm.state k).version.toNat + mutations o k sm calls) % 2 ^ 32 := by
  have hadvance : ∀ (n : ℕ) (v : UInt32), ((· + 1)^[n] v).toNat = (v.toNat + n) % 2 ^ 32 := by
    intro n
    induction n with
    | zero => exact fun v => (Nat.mod_eq_of_lt v.toNat_lt).symm
    | succ n ih =>
      intro v
      rw [Function.iterate_succ_apply, ih, UInt32.toNat_add, UInt32.toNat_one]
      omega
  have hrun : ((final (step o) sm calls).state k).version =
      (· + 1)^[mutations o k sm calls] (sm.state k).version :=
    iterate_count (P := fun sm => k.toNat < sm.numStates) (fun sm => (sm.state k).version) (· + 1)
      (fun sm call hk => hk.trans_le (numStates_le_step o sm call))
      (fun sm call hk hmutated => by
        rcases step_state o sm call hk with ⟨-, hversion⟩ | ⟨hno, -⟩
        · exact hversion
        · exact absurd (of_decide_eq_true hmutated) hno)
      (fun sm call hk hmutated => by
        rcases step_state o sm call hk with ⟨hyes, -⟩ | ⟨-, hsame⟩
        · exact absurd hyes (of_decide_eq_false hmutated)
        · rw [hsame])
      sm calls hk
  rw [hrun, hadvance]

/-- A state that a run does not mutate is as it was. -/
theorem state_final (hk : k.toNat < sm.numStates) {calls : List (Host × Op)}
    (hnone : mutations o k sm calls = 0) : (final (step o) sm calls).state k = sm.state k := by
  have hmoves := count_eq_zero.1 hnone
  have hrun := moves_of_step (P := fun s => k.toNat < s.numStates ∧ s.state k = sm.state k)
    (C := fun s call => mutated o s call ≠ some k)
    (fun s call ⟨hks, hsame⟩ hno => by
      refine ⟨hks.trans_le (numStates_le_step o s call), ?_⟩
      rcases step_state o s call hks with ⟨hyes, -⟩ | ⟨-, hstep⟩
      · exact absurd hyes hno
      · rw [hstep, hsame])
    sm calls ⟨hk, rfl⟩ fun m hm => of_decide_eq_false (hmoves m hm)
  exact hrun.2.2

/-- A state that has just been added has version `2`. -/
theorem version_added {call : Host × Op} {name : Option CString} {onEnter onExit : Ptr}
    {isFinal : Bool} (hop : call.2 = .addState name onEnter onExit isFinal)
    (hsuccess : (step o sm call).2.status = .success) (hk : k.toNat = sm.numStates) :
    k.toNat < (step o sm call).1.numStates ∧ ((step o sm call).1.state k).version = 2 := by
  obtain ⟨host, op⟩ := call
  subst hop
  have hchange := step_change o sm (host, .addState name onEnter onExit isFinal)
  generalize step o sm (host, .addState name onEnter onExit isFinal) = r at hsuccess hchange ⊢
  cases hchange with
  | failed status failures hstatus hfailures => exact absurd hsuccess hstatus
  | stateAdded name onEnter onExit isFinal hroom =>
    refine ⟨?_, ?_⟩
    · unfold PolyCallStateMachine.numStates at hk ⊢
      rw [List.length_append, hk]
      exact Nat.lt_succ_self _
    · rw [state_append_self rfl hk]
      rfl

/-! ## Restorations -/

/-- A successful restoration is of a registered state that still has the version of the
snapshot. -/
theorem restoreStateFromSnapshot_success {host : Host} {snapshot : PolyCallStateSnapshot}
    (h : (restoreStateFromSnapshot host sm (some snapshot)).1 = .success) :
    snapshot.state.id.toNat < sm.numStates ∧
      (sm.state snapshot.state.id).version = snapshot.state.version ∧
      (restoreStateFromSnapshot host sm (some snapshot)).2 =
        sm.modifyState snapshot.state.id fun _ => updateStateTimestamp host.now snapshot.state := by
  have hchange := step_change .little sm (host, .restoreStateFromSnapshot (some snapshot))
  unfold step at hchange
  dsimp only at hchange
  generalize restoreStateFromSnapshot host sm (some snapshot) = r at h hchange ⊢
  obtain ⟨status, sm'⟩ := r
  subst h
  cases hchange with
  | failed status failures hstatus hfailures => exact absurd rfl hstatus
  | restored snapshot hid hunlocked hversion => exact ⟨hid, hversion, rfl⟩

/-- What a successful restoration does when the state has not been mutated since the snapshot:
it updates the timestamp of the state, and with it the version, and nothing else. -/
theorem restore_unmutated {host : Host} {snapshot : PolyCallStateSnapshot}
    (h : (restoreStateFromSnapshot host sm (some snapshot)).1 = .success)
    (hsame : snapshot.state = sm.state k) (hid : snapshot.state.id = k) :
    (restoreStateFromSnapshot host sm (some snapshot)).2 =
      sm.modifyState k (updateStateTimestamp host.now) := by
  obtain ⟨hk, -, heq⟩ := restoreStateFromSnapshot_success h
  rw [hid] at hk heq
  rw [heq, hsame]
  unfold PolyCallStateMachine.modifyState
  congr 1
  refine List.ext_getElem? fun i => ?_
  rw [List.getElem?_modify, List.getElem?_modify]
  rcases eq_or_ne k.toNat i with rfl | hne
  · have hget : sm.states[k.toNat]? = some (sm.state k) := getElem?_state hk
    rw [hget]
    simp
  · simp [hne]

/-- A state that has been mutated, fewer than `2^32` times, has another version than before. -/
theorem version_ne (hk : k.toNat < sm.numStates) {calls : List (Host × Op)}
    (hpos : 0 < mutations o k sm calls) (hlt : mutations o k sm calls < 2 ^ 32) :
    ((final (step o) sm calls).state k).version ≠ (sm.state k).version := by
  intro h
  have hcount := version_final (o := o) hk calls
  have hbound := (sm.state k).version.toNat_lt
  rw [h] at hcount
  omega

/-- What a restoration at the end of a run loses, when the snapshot was taken of the state `k` at
its start: nothing. -/
structure LosesNothing (o : ByteOrder) (k : UInt32) (snapshot : PolyCallStateSnapshot)
    (sm : PolyCallStateMachine) (calls : List (Host × Op)) (host : Host) : Prop where
  /-- The state has not been mutated since the snapshot. -/
  unmutated : mutations o k sm calls = 0
  /-- The restoration updates the timestamp of the state, and with it the version, and changes
  nothing else. -/
  machine : (restoreStateFromSnapshot host (final (step o) sm calls) (some snapshot)).2 =
    (final (step o) sm calls).modifyState k (updateStateTimestamp host.now)
  /-- The snapshot is not restored a second time, within `2^32` mutations since it was taken. -/
  once : ∀ (later : List (Host × Op)) (host' : Host),
    let restored := (restoreStateFromSnapshot host (final (step o) sm calls) (some snapshot)).2
    mutations o k restored later + 1 < 2 ^ 32 →
      (restoreStateFromSnapshot host' (final (step o) restored later) (some snapshot)).1 ≠ .success

/-- A restoration that succeeds within `2^32` mutations of its snapshot loses nothing. -/
theorem losesNothing_of_success {host host' : Host} {snapshot : PolyCallStateSnapshot}
    {calls : List (Host × Op)} (hmade : Made o sm)
    (hsnapshot : createStateSnapshot o host sm k = (.success, some snapshot))
    (hlt : mutations o k sm calls < 2 ^ 32)
    (h : (restoreStateFromSnapshot host' (final (step o) sm calls) (some snapshot)).1 =
      .success) :
    LosesNothing o k snapshot sm calls host' := by
  obtain ⟨hk, hstate⟩ := createStateSnapshot_success hsnapshot
  have hid : snapshot.state.id = k := by
    rw [hstate]
    exact hmade.wellFormed.id_eq k hk
  obtain ⟨hk', hversion, -⟩ := restoreStateFromSnapshot_success h
  rw [hid] at hk' hversion
  have hnone : mutations o k sm calls = 0 := by
    by_contra hsome
    refine version_ne hk (Nat.pos_of_ne_zero hsome) hlt ?_
    rw [hversion, hstate]
  have hmachine := restore_unmutated h (hstate.trans (state_final hk hnone).symm) hid
  refine ⟨hnone, hmachine, ?_⟩
  intro later host'' restored hlater hagain
  -- The restoration itself has moved the version past that of the snapshot.
  have hkr : k.toNat < restored.numStates := by
    show k.toNat < (restoreStateFromSnapshot host' _ (some snapshot)).2.numStates
    rw [hmachine, numStates_modifyState]
    exact hk'
  have hbumped : (restored.state k).version = snapshot.state.version + 1 := by
    show ((restoreStateFromSnapshot host' _ (some snapshot)).2.state k).version = _
    rw [hmachine, state_modifyState _ hk', if_pos rfl, ← hversion]
    rfl
  obtain ⟨-, hstale, -⟩ := restoreStateFromSnapshot_success hagain
  have hcount := version_final (o := o) hkr later
  have hbound := snapshot.state.version.toNat_lt
  rw [hid] at hstale
  rw [hstale, hbumped, UInt32.toNat_add, UInt32.toNat_one] at hcount
  omega

/-- The version of a registered state is `2` plus the number of its mutations since it was added,
modulo `2^32`; and a restoration that succeeds within `2^32` mutations of its snapshot loses
nothing. -/
theorem versions_count_mutations (o : ByteOrder) :
    (∀ (sm : PolyCallStateMachine) (call : Host × Op) (name : Option CString)
        (onEnter onExit : Ptr) (isFinal : Bool) (k : UInt32) (calls : List (Host × Op)),
      call.2 = .addState name onEnter onExit isFinal → (step o sm call).2.status = .success →
      k.toNat = sm.numStates →
      ((final (step o) (step o sm call).1 calls).state k).version.toNat =
        (2 + mutations o k (step o sm call).1 calls) % 2 ^ 32) ∧
    (∀ (sm : PolyCallStateMachine) (host host' : Host) (k : UInt32)
        (snapshot : PolyCallStateSnapshot) (calls : List (Host × Op)),
      Made o sm → createStateSnapshot o host sm k = (.success, some snapshot) →
      mutations o k sm calls < 2 ^ 32 →
      (restoreStateFromSnapshot host' (final (step o) sm calls) (some snapshot)).1 = .success →
      LosesNothing o k snapshot sm calls host') := by
  constructor
  · intro sm call name onEnter onExit isFinal k calls hop hsuccess hk
    obtain ⟨hk', hversion⟩ := version_added hop hsuccess hk
    rw [version_final hk', hversion]
    rfl
  · intro sm host host' k snapshot calls hmade hsnapshot hlt h
    exact losesNothing_of_success hmade hsnapshot hlt h

/-- A state added, locked and unlocked has version `4`. A snapshot of it taken before is refused
then, and one taken after is restored, also when another state has been locked since. -/
theorem versions_count_mutations_unlock :
    let added := (step .little freshMachine
      (stillHost, .addState (some (CString.ofChars ['A'])) 0 0 false)).1
    let calls : List (Host × Op) :=
      [(stillHost, .addState (some (CString.ofChars ['B'])) 0 0 false),
        (stillHost, .lockState 0), (stillHost, .unlockState 0)]
    let sm := final (step .little) added calls
    (sm.state 0).version.toNat = 4 ∧
      (∃ earlier, createStateSnapshot .little stillHost added 0 = (.success, some earlier) ∧
        (restoreStateFromSnapshot stillHost sm (some earlier)).1 ≠ .success) ∧
      ∃ snapshot, createStateSnapshot .little stillHost sm 0 = (.success, some snapshot) ∧
        LosesNothing .little 0 snapshot sm [(stillHost, .lockState 1)] stillHost := by
  intro added calls sm
  have hmade : Made .little sm :=
    ((Made.create create_freshMachine).call _ (by simp)).run (by simp [calls])
  have h := versions_count_mutations .little
  refine ⟨h.1 freshMachine _ _ 0 0 false 0 calls rfl rfl rfl, ⟨_, rfl, by decide⟩, _, rfl, ?_⟩
  exact h.2 sm stillHost stillHost 0 _ [(stillHost, .lockState 1)] hmade rfl (by decide) rfl

/-- Every lock of a registered state is a mutation. -/
theorem mutations_replicate_lock (host : Host) :
    ∀ (n : ℕ) (sm : PolyCallStateMachine), sm.isInitialized = true → k.toNat < sm.numStates →
      mutations o k sm (List.replicate n (host, .lockState k)) = n
  | 0, _, _, _ => rfl
  | n + 1, sm, hinit, hk => by
    have hlock : step o sm (host, .lockState k) =
        (sm.modifyState k fun s => updateStateTimestamp host.now { s with isLocked := true },
          ⟨.success, none, []⟩) := by
      have hk' : ¬ sm.numStates ≤ k.toNat := Nat.not_le.2 hk
      simp [step, lockState, setLock, hinit, hk']
    have hmutated : mutated o sm (host, .lockState k) = some k := by
      rw [mutated, hlock, if_pos rfl, writesTo]
    have hk' : k.toNat < (step o sm (host, .lockState k)).1.numStates :=
      hk.trans_le (numStates_le_step o sm _)
    have hinit' : (step o sm (host, .lockState k)).1.isInitialized = true := by
      rw [hlock]
      exact hinit
    have ih := mutations_replicate_lock host n _ hinit' hk'
    unfold mutations at ih ⊢
    rw [List.replicate_succ, count_cons, ih, if_pos (decide_eq_true hmutated)]

/-- After `2^32 - 2` locks, the version has come round to `0`. -/
theorem versions_wrap :
    ∃ (call : Host × Op) (name : CString) (calls : List (Host × Op)),
      call.2 = .addState (some name) 0 0 false ∧
      (step .little freshMachine call).2.status = .success ∧
      mutations .little 0 (step .little freshMachine call).1 calls < 2 ^ 32 ∧
      ((final (step .little) (step .little freshMachine call).1 calls).state 0).version.toNat ≠
        2 + mutations .little 0 (step .little freshMachine call).1 calls := by
  let call : Host × Op := (stillHost, .addState (some (CString.ofChars ['A'])) 0 0 false)
  have hregistered : (0 : UInt32).toNat < (step .little freshMachine call).1.numStates := by decide
  have hlocks := mutations_replicate_lock (o := .little) (k := 0) stillHost (2 ^ 32 - 2)
    (step .little freshMachine call).1 rfl hregistered
  have hversion := version_final (o := .little) hregistered
    (List.replicate (2 ^ 32 - 2) (stillHost, .lockState 0))
  refine ⟨call, CString.ofChars ['A'], List.replicate (2 ^ 32 - 2) (stillHost, .lockState 0), rfl,
    rfl, ?_, ?_⟩
  · rw [hlocks]
    omega
  · rw [hversion, hlocks]
    have hbound := ((step .little freshMachine call).1.state 0).version.toNat_lt
    omega

end LibPolyCall.StateMachine
