import LibPolyCall.StateMachine.Invariant

/-!
# The integrity check

The checksum of a state is computed once, when the state is added, over the fields that no later
call rewrites, and a restoration writes it back together with them. So the checksum of every
registered state of a machine that was made is the right one (`Made.checksum_eq`), and the check
never complains. On the other side, the checksum tells two regions that differ in one byte apart,
so the check finds that byte.

The region is read as bytes (`verifyRegion`), because damaged memory need not be the encoding of
any record: a `bool` field may hold a byte that is neither `0` nor `1`.

A restoration compares neither of the two checksums that a snapshot holds, so what it installs is
intact only where the snapshot is (`restore_intact_iff`).
-/

namespace LibPolyCall.StateMachine

open Bytes CStrings Checksum Runs

variable {o : ByteOrder} {sm : PolyCallStateMachine}

/-- No call changes whether a machine is initialized, or its integrity check. -/
theorem step_constants (o : ByteOrder) (sm : PolyCallStateMachine) (call : Host × Op) :
    (step o sm call).1.isInitialized = sm.isInitialized ∧
      (step o sm call).1.integrityCheck = sm.integrityCheck := by
  obtain ⟨host, op⟩ := call
  have hchange := step_change o sm (host, op)
  generalize step o sm (host, op) = r at hchange ⊢
  cases hchange <;> exact ⟨rfl, rfl⟩

/-- A machine that was made is initialized. -/
theorem Made.isInitialized (h : Made o sm) : sm.isInitialized = true := by
  induction h with
  | create hcreate => exact (createWithIntegrity_success hcreate).2.2.2.2
  | call call hmade hop ih => rw [(step_constants o _ call).1, ih]
  | restore host host' stateId snapshot hmade hsource hsnapshot ih ihsource =>
    rw [(step_constants o _ _).1, ih]

/-- The checksum of a record does not depend on the fields that are rewritten in place. -/
theorem keptByWrites_checksum (o : ByteOrder) :
    KeptByWrites o fun state => state.checksum = calculateStateChecksum o state where
  new _ _ _ _ _ _ := rfl
  rewritten _ _ _ _ h := h

/-- The checksum of every registered state is the one of its record. -/
theorem Made.checksum_eq (h : Made o sm) {stateId : UInt32} (hid : stateId.toNat < sm.numStates) :
    (sm.state stateId).checksum = calculateStateChecksum o (sm.state stateId) :=
  (h.records (keptByWrites_checksum o)).prop stateId hid

/-- `polycall_sm_verify_state_integrity`, over the bytes that it finds in the region of the state
before its `checksum` field. -/
def verifyRegion (host : Host) (sm : PolyCallStateMachine) (stateId : UInt32)
    (region : List UInt8) : Status × PolyCallStateMachine :=
  if !sm.isInitialized then (.errorNotInitialized, sm)
  else if sm.numStates ≤ stateId.toNat then (.errorInvalidState, sm)
  else
    let state := sm.state stateId
    if rotateAdd 8 region ≠ state.checksum then (.errorIntegrityCheckFailed, sm.countViolation)
    else if sm.integrityCheck ≠ 0 && !host.integrityCheck sm.integrityCheck state then
      (.errorIntegrityCheckFailed, sm.countViolation)
    else (.success, sm)

/-- The region of an undamaged state is the encoding of its record. -/
theorem verifyStateIntegrity_eq (o : ByteOrder) (host : Host) (sm : PolyCallStateMachine)
    (stateId : UInt32) :
    verifyStateIntegrity o host sm stateId =
      verifyRegion host sm stateId (checksummedBytes o (sm.state stateId)) :=
  rfl

section Verify

variable {host : Host} {stateId : UInt32}

/-- The check of a registered state compares the checksums, when there is no further one. -/
theorem verifyRegion_of_registered (hinit : sm.isInitialized = true)
    (hcheck : sm.integrityCheck = 0) (hid : stateId.toNat < sm.numStates) (region : List UInt8) :
    verifyRegion host sm stateId region =
      if rotateAdd 8 region ≠ (sm.state stateId).checksum then
        (.errorIntegrityCheckFailed, sm.countViolation)
      else (.success, sm) := by
  unfold verifyRegion
  have hid' : ¬ sm.numStates ≤ stateId.toNat := Nat.not_le.2 hid
  simp [hinit, hcheck, hid']

/-- A damaged byte of the region is found. -/
theorem verifyRegion_set (h : Made o sm) (hcheck : sm.integrityCheck = 0)
    (hid : stateId.toNat < sm.numStates) {k : ℕ}
    (hk : k < (checksummedBytes o (sm.state stateId)).length) {b : UInt8}
    (hb : b ≠ (checksummedBytes o (sm.state stateId))[k]) :
    verifyRegion host sm stateId ((checksummedBytes o (sm.state stateId)).set k b) =
      (.errorIntegrityCheckFailed, sm.countViolation) := by
  have hne := rotateAdd_set_ne (r := 8) (by decide) (by decide) hk hb
  rw [verifyRegion_of_registered h.isInitialized hcheck hid, h.checksum_eq hid]
  exact if_pos hne

/-- A record that differs from the one registered in one byte of the region is found out when it
stands in its place. -/
theorem verifyStateIntegrity_damaged (h : Made o sm) (hcheck : sm.integrityCheck = 0)
    (hid : stateId.toNat < sm.numStates) {damaged : PolyCallState}
    (hsum : damaged.checksum = (sm.state stateId).checksum) {k : ℕ}
    (hk : k < (checksummedBytes o (sm.state stateId)).length) {b : UInt8}
    (hb : b ≠ (checksummedBytes o (sm.state stateId))[k])
    (hdamaged : checksummedBytes o damaged = (checksummedBytes o (sm.state stateId)).set k b) :
    (verifyStateIntegrity o host (sm.modifyState stateId fun _ => damaged) stateId).1 =
      .errorIntegrityCheckFailed := by
  have hne := rotateAdd_set_ne (r := 8) (by decide) (by decide) hk hb
  set sm' := sm.modifyState stateId fun _ => damaged with hsm'
  have hid' : stateId.toNat < sm'.numStates := by
    rw [hsm', numStates_modifyState]
    exact hid
  have hstate : sm'.state stateId = damaged := by rw [hsm', state_modifyState _ hid, if_pos rfl]
  have hinit' : sm'.isInitialized = true := h.isInitialized
  have hcheck' : sm'.integrityCheck = 0 := hcheck
  rw [verifyStateIntegrity_eq, verifyRegion_of_registered hinit' hcheck' hid', hstate, hdamaged,
    hsum, h.checksum_eq hid, calculateStateChecksum, if_pos hne]

end Verify

/-- On a machine that was made without an integrity check of its own, the check of a registered
state raises no alarm and changes nothing; and whatever single byte of the region is changed to
another value, it fails, whether the bytes still encode a record or not. -/
theorem verify_exact (h : Made o sm) (hcheck : sm.integrityCheck = 0) (host : Host)
    (stateId : UInt32) (hid : stateId.toNat < sm.numStates) :
    verifyStateIntegrity o host sm stateId = (.success, sm) ∧
      ∀ (k : ℕ) (b : UInt8) (hk : k < (checksummedBytes o (sm.state stateId)).length),
        b ≠ (checksummedBytes o (sm.state stateId))[k] →
        verifyRegion host sm stateId ((checksummedBytes o (sm.state stateId)).set k b) =
            (.errorIntegrityCheckFailed, sm.countViolation) ∧
          ∀ damaged : PolyCallState, damaged.checksum = (sm.state stateId).checksum →
            checksummedBytes o damaged = (checksummedBytes o (sm.state stateId)).set k b →
            (verifyStateIntegrity o host (sm.modifyState stateId fun _ => damaged) stateId).1 =
              .errorIntegrityCheckFailed := by
  refine ⟨?_, fun k b hk hb => ⟨verifyRegion_set h hcheck hid hk hb, ?_⟩⟩
  · have hsum : ¬ rotateAdd 8 (checksummedBytes o (sm.state stateId)) ≠
        (sm.state stateId).checksum := not_not.2 (h.checksum_eq hid).symm
    rw [verifyStateIntegrity_eq, verifyRegion_of_registered h.isInitialized hcheck hid,
      if_neg hsum]
  · exact fun damaged hsum hdamaged =>
      verifyStateIntegrity_damaged h hcheck hid hsum hk hb hdamaged

/-- The first state of `strayCalls` is found unharmed, and its name with another first letter is
not. -/
theorem verify_exact_stray :
    let sm := final (step .little) freshMachine strayCalls
    verifyStateIntegrity .little stillHost sm 0 = (.success, sm) ∧
      verifyRegion stillHost sm 0 ((checksummedBytes .little (sm.state 0)).set 0 66) =
        (.errorIntegrityCheckFailed, sm.countViolation) := by
  intro sm
  have hmade : Made .little sm := (Made.create create_freshMachine).run (by simp [strayCalls])
  have h := verify_exact hmade rfl stillHost 0 (by decide)
  exact ⟨h.1, (h.2 0 66 (by decide) (by decide)).1⟩

/-! ## Damaged snapshots -/

/-- The checksum of the snapshot, and the one inside its state, are those of its state. -/
def PolyCallStateSnapshot.Intact (o : ByteOrder) (snapshot : PolyCallStateSnapshot) : Prop :=
  calculateStateChecksum o snapshot.state = snapshot.checksum ∧
    calculateStateChecksum o snapshot.state = snapshot.state.checksum

/-- Whether a snapshot is intact can be decided. -/
instance (o : ByteOrder) (snapshot : PolyCallStateSnapshot) : Decidable (snapshot.Intact o) :=
  inferInstanceAs (Decidable (_ ∧ _))

/-- The tests of `restore_state_from_snapshot`: its state is registered under its id, is not locked,
and still has the version of the snapshot. -/
structure Restorable (sm : PolyCallStateMachine) (snapshot : PolyCallStateSnapshot) : Prop where
  initialized : sm.isInitialized = true
  registered : snapshot.state.id.toNat < sm.numStates
  unlocked : (sm.state snapshot.state.id).isLocked = false
  version_eq : (sm.state snapshot.state.id).version = snapshot.state.version

section Restore

variable {host : Host} {snapshot : PolyCallStateSnapshot}

/-- A snapshot that passes the tests is written into the table. -/
theorem restore_of_restorable (h : Restorable sm snapshot) :
    restoreStateFromSnapshot host sm (some snapshot) =
      (.success, sm.modifyState snapshot.state.id fun _ =>
        updateStateTimestamp host.now snapshot.state) := by
  have hid : ¬ sm.numStates ≤ snapshot.state.id.toNat := Nat.not_le.2 h.registered
  unfold restoreStateFromSnapshot
  simp [h.initialized, hid, h.unlocked, h.version_eq]

/-- Any other snapshot is refused. -/
theorem restore_of_not_restorable (h : ¬ Restorable sm snapshot) :
    (restoreStateFromSnapshot host sm (some snapshot)).1 ≠ .success ∧
      (restoreStateFromSnapshot host sm (some snapshot)).2 = sm := by
  unfold restoreStateFromSnapshot
  dsimp only
  split_ifs with hinit hid hlocked hversion
  · exact ⟨by simp, rfl⟩
  · exact ⟨by simp, rfl⟩
  · exact ⟨by simp, rfl⟩
  · exact ⟨by simp, rfl⟩
  · exact absurd ⟨by simpa using hinit, Nat.lt_of_not_le hid, by simpa using hlocked,
      not_not.1 hversion⟩ h

/-- What a restoration that rejects damaged snapshots would do: it succeeds only on an intact
snapshot, and else leaves the machine as it was; and the check of the state that it installs raises
no alarm, but for what an integrity check of the machine's own may find. -/
structure RejectsDamage (o : ByteOrder) (host : Host) (sm : PolyCallStateMachine)
    (snapshot : PolyCallStateSnapshot) : Prop where
  intact : (restoreStateFromSnapshot host sm (some snapshot)).1 = .success → snapshot.Intact o
  unchanged : (restoreStateFromSnapshot host sm (some snapshot)).1 ≠ .success →
    (restoreStateFromSnapshot host sm (some snapshot)).2 = sm
  verified : (restoreStateFromSnapshot host sm (some snapshot)).1 = .success → ∀ later : Host,
    (verifyStateIntegrity o later (restoreStateFromSnapshot host sm (some snapshot)).2
      snapshot.state.id).1 = .errorIntegrityCheckFailed →
    sm.integrityCheck ≠ 0 ∧
      later.integrityCheck sm.integrityCheck
        ((restoreStateFromSnapshot host sm (some snapshot)).2.state snapshot.state.id) = false

/-- The check of a state whose checksum is right raises an alarm only through the integrity check of
the machine. -/
theorem verifyStateIntegrity_of_checksum {stateId : UInt32}
    (hsum : calculateStateChecksum o (sm.state stateId) = (sm.state stateId).checksum)
    (h : (verifyStateIntegrity o host sm stateId).1 = .errorIntegrityCheckFailed) :
    sm.integrityCheck ≠ 0 ∧ host.integrityCheck sm.integrityCheck (sm.state stateId) = false := by
  unfold verifyStateIntegrity at h
  dsimp only at h
  split_ifs at h with hinit hid hne hcheck
  · exact absurd hsum hne
  · simpa using hcheck

/-- For every machine and every snapshot: a restoration rejects damage exactly if the snapshot fails
one of the tests that the restoration makes, or is intact. -/
theorem restore_intact_iff (o : ByteOrder) (host : Host) (sm : PolyCallStateMachine)
    (snapshot : PolyCallStateSnapshot) :
    RejectsDamage o host sm snapshot ↔ ¬ Restorable sm snapshot ∨ snapshot.Intact o := by
  by_cases hrestorable : Restorable sm snapshot
  · have heq := @restore_of_restorable sm host snapshot hrestorable
    constructor
    · intro h
      exact .inr (h.intact (by rw [heq]))
    · rintro (hno | hintact)
      · exact absurd hrestorable hno
      · refine ⟨fun _ => hintact, fun hfails => absurd (by rw [heq]) hfails,
          fun _ later halarm => ?_⟩
        -- The update of the timestamp is outside of what the checksum covers.
        have hstate : (restoreStateFromSnapshot host sm (some snapshot)).2.state
            snapshot.state.id = updateStateTimestamp host.now snapshot.state := by
          rw [heq]
          dsimp only
          rw [state_modifyState _ hrestorable.registered, if_pos rfl]
        have hcheck : (restoreStateFromSnapshot host sm (some snapshot)).2.integrityCheck =
            sm.integrityCheck := by
          rw [heq]
          rfl
        rw [← hcheck]
        refine verifyStateIntegrity_of_checksum ?_ halarm
        rw [hstate]
        exact hintact.2
  · obtain ⟨hfails, hsame⟩ := @restore_of_not_restorable sm host snapshot hrestorable
    refine iff_of_true ?_ (.inl hrestorable)
    exact ⟨fun h => absurd h hfails, fun _ => hsame, fun h => absurd h hfails⟩

end Restore

/-- A snapshot of the first state of `strayCalls` under another name is restored, although neither
of its checksums is that of its state. -/
theorem restore_renamed :
    ¬ RejectsDamage .little stillHost (final (step .little) freshMachine strayCalls)
      ⟨{ (final (step .little) freshMachine strayCalls).state 0 with
          name := CharArray.copy maxNameLength (CString.ofChars ['Z']) },
        0, ((final (step .little) freshMachine strayCalls).state 0).checksum⟩ := by
  intro h
  exact absurd (h.intact (by decide)) (by decide +kernel)

end LibPolyCall.StateMachine
