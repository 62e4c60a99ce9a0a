import LibPolyCall.Library.Runs
import LibPolyCall.Micro.Context

/-!
# The slots of the table

`count` and `active_mask` are updated side by side, and `count` stays the number of one-bits of
the mask (`Counted`): a service is created in a slot whose bit is clear, and destroyed in one whose
bit is set. The garbage collection is a sequence of such destructions. The test `count >= 32` of
`create_service` therefore guards the search for a clear bit behind it (`bookkeeping_of_counted`).
-/

namespace LibPolyCall.Micro

open Runs

/-- A call on the table, with its arguments. -/
inductive Call where
  | createService (serviceId flags : UInt32)
  | destroyService (serviceId : UInt32)
  | batchProcess (serviceId : UInt32) (commands : Option PolycallCommandArray)
  | updateServiceState (serviceId newState : UInt32)
  | collectGarbage

/-- One call, at the time that it finds. -/
def step (ctx : PolycallMicroContext) (call : UInt64 × Call) :
    PolycallMicroContext × PolycallMicroStatus :=
  let r :=
    match call.2 with
    | .createService serviceId flags => createService call.1 ctx serviceId flags
    | .destroyService serviceId => destroyService ctx serviceId
    | .batchProcess serviceId commands => batchProcess call.1 ctx serviceId commands
    | .updateServiceState serviceId newState => updateServiceState call.1 ctx serviceId newState
    | .collectGarbage => collectGarbage call.1 ctx
  (r.2, r.1)

variable {ctx : PolycallMicroContext} {i j : Slot}

/-! ## Reading a table after a write -/

/-- The slot has the service that was written into it. -/
@[simp] theorem service_setService_self (service : PolycallServiceState) :
    (ctx.setService i service).service i = service :=
  List.Vector.get_set_same _ _ _

/-- The other slots have the services that they had. -/
theorem service_setService_of_ne (service : PolycallServiceState) (h : i ≠ j) :
    (ctx.setService i service).service j = ctx.service j :=
  List.Vector.get_set_of_ne h _

/-- Writing a service into a slot makes no slot active. -/
@[simp] theorem isActive_setService (service : PolycallServiceState) :
    (ctx.setService i service).isActive j = ctx.isActive j := rfl

/-- A cleared slot is inactive, and the others are as they were. -/
theorem isActive_clear : (ctx.clear i).isActive j = (ctx.isActive j && !decide (j = i)) :=
  Mask.isSet_erase _ i j

/-- Clearing a slot leaves the services of the others. -/
theorem service_clear_of_ne (h : i ≠ j) : (ctx.clear i).service j = ctx.service j :=
  service_setService_of_ne _ h

/-- After a slot is cleared, the others are active as before. -/
theorem isActive_clear_iff :
    (ctx.clear i).isActive j = true ↔ ctx.isActive j = true ∧ j ≠ i := by
  rw [isActive_clear, Bool.and_eq_true, Bool.not_eq_true', decide_eq_false_iff_not]

/-- What is active beside a cleared slot was active before, and is as it was. -/
theorem kept_of_isActive_clear (h : (ctx.clear i).isActive j = true) :
    ctx.isActive j = true ∧ (ctx.clear i).service j = ctx.service j :=
  ⟨(isActive_clear_iff.1 h).1, service_clear_of_ne (isActive_clear_iff.1 h).2.symm⟩

/-! ## The searches -/

/-- The search of `create_service` finds a slot that is not active. -/
theorem isSet_of_findSlot {mask : UInt32} (h : findSlot mask = some i) :
    Mask.isSet mask i = false := by
  have hi := List.find?_some h
  simpa using hi

/-- Only a full mask has no slot to find. -/
theorem findSlot_eq_none {mask : UInt32} :
    findSlot mask = none ↔ ∀ i, Mask.isSet mask i = true := by
  unfold findSlot
  rw [List.find?_eq_none]
  simp

/-- The search for an id finds an active slot of that id. -/
theorem isActive_of_findService {serviceId : UInt32} (h : ctx.findService serviceId = some i) :
    ctx.isActive i = true ∧ (ctx.service i).id = serviceId := by
  have hi := List.find?_some h
  simpa using hi

/-- The search for an id fails when no active slot has it. -/
theorem findService_eq_none {serviceId : UInt32} :
    ctx.findService serviceId = none ↔
      ∀ i, ctx.isActive i = true → (ctx.service i).id ≠ serviceId := by
  unfold PolycallMicroContext.findService
  rw [List.find?_eq_none]
  simp

/-! ## Counting -/

/-- `count` is the number of one-bits of `active_mask`. -/
def Counted (ctx : PolycallMicroContext) : Prop :=
  ctx.serviceArray.count.toNat = (Mask.slots ctx.serviceArray.activeMask).card

/-- What `create_service` does to a counted table: while a slot is free, the service is written
into a slot that was not active, and else nothing happens. -/
theorem createService_of_counted (h : Counted ctx) (now : UInt64) (serviceId flags : UInt32) :
    ((∀ i, ctx.isActive i = true) ∧
        createService now ctx serviceId flags = (.errorService, ctx)) ∨
      ∃ slot ctx', findSlot ctx.serviceArray.activeMask = some slot ∧ ctx.isActive slot = false ∧
        createService now ctx serviceId flags = (.success, ctx') ∧ Counted ctx' ∧
        (∀ j, ctx'.isActive j = (ctx.isActive j || decide (j = slot))) ∧
        ∀ j, ctx'.service j =
          if j = slot then newService now serviceId flags else ctx.service j := by
  unfold createService
  split_ifs with hfull
  · -- All 32 bits are set.
    left
    refine ⟨fun i => ?_, rfl⟩
    by_contra hi
    have hlt := Mask.card_slots_lt_iff.2 ⟨i, by simpa [PolycallMicroContext.isActive] using hi⟩
    rw [← h] at hlt
    exact absurd hlt (Nat.not_lt.2 hfull)
  · right
    -- The count is below 32, and so is the number of bits.
    have hlt : (Mask.slots ctx.serviceArray.activeMask).card < 32 := by
      rw [← h]
      exact Nat.lt_of_not_le hfull
    cases hslot : findSlot ctx.serviceArray.activeMask with
    | none =>
      obtain ⟨i, hi⟩ := Mask.card_slots_lt_iff.1 hlt
      rw [findSlot_eq_none.1 hslot i] at hi
      exact absurd hi (by decide)
    | some slot =>
      have hfree := isSet_of_findSlot hslot
      refine ⟨slot, _, rfl, hfree, rfl, ?_, fun j => Mask.isSet_insert _ slot j, fun j => ?_⟩
      · show (ctx.serviceArray.count + 1).toNat =
          (Mask.slots (Mask.insert ctx.serviceArray.activeMask slot)).card
        -- The bit was clear, so both the count and the number of bits go up by one.
        rw [Mask.slots_insert, Finset.card_insert_of_notMem (by simp [hfree]), ← h,
          UInt32.toNat_add, UInt32.toNat_one]
        rw [← h] at hlt
        omega
      · rcases eq_or_ne slot j with rfl | hne
        · rw [if_pos rfl]
          exact service_setService_self _
        · rw [if_neg hne.symm]
          exact service_setService_of_ne _ hne

/-- Clearing an active slot of a counted table lowers the count by one, without underflow. -/
theorem count_clear (h : Counted ctx) (hi : ctx.isActive i = true) :
    Counted (ctx.clear i) ∧
      (ctx.clear i).serviceArray.count.toNat + 1 = ctx.serviceArray.count.toNat := by
  have hmem : i ∈ Mask.slots ctx.serviceArray.activeMask := Mask.mem_slots.2 hi
  have hpos : 0 < ctx.serviceArray.count.toNat := by
    rw [h]
    exact Finset.card_pos.2 ⟨i, hmem⟩
  have hone : (1 : UInt32) ≤ ctx.serviceArray.count := by
    rw [UInt32.le_iff_toNat_le]
    exact hpos
  have hcount : (ctx.clear i).serviceArray.count.toNat = ctx.serviceArray.count.toNat - 1 := by
    show (ctx.serviceArray.count - 1).toNat = _
    rw [UInt32.toNat_sub_of_le _ _ hone, UInt32.toNat_one]
  refine ⟨?_, by omega⟩
  unfold Counted
  rw [hcount, h]
  show _ = (Mask.slots (Mask.erase ctx.serviceArray.activeMask i)).card
  rw [Mask.slots_erase, Finset.card_erase_of_mem hmem]

/-- What `destroy_service` does: it clears an active slot of the id, or there is none. -/
theorem destroyService_cases (ctx : PolycallMicroContext) (serviceId : UInt32) :
    (ctx.findService serviceId = none ∧
        destroyService ctx serviceId = (.errorService, ctx)) ∨
      ∃ i, ctx.findService serviceId = some i ∧ ctx.isActive i = true ∧
        (ctx.service i).id = serviceId ∧
        destroyService ctx serviceId = (.success, ctx.clear i) := by
  unfold destroyService
  cases hfind : ctx.findService serviceId with
  | none => exact .inl ⟨rfl, rfl⟩
  | some i =>
    obtain ⟨hactive, hid⟩ := isActive_of_findService hfind
    exact .inr ⟨i, rfl, hactive, hid, rfl⟩

/-- A pass of the garbage collection over a slot leaves the table as it was, or clears an active
slot. -/
theorem collectSlot_cases (now : UInt64) (ctx : PolycallMicroContext) (i : Slot) :
    collectSlot now ctx i = ctx ∨
      ∃ j, ctx.isActive j = true ∧ (ctx.service j).id = (ctx.service i).id ∧
        collectSlot now ctx i = ctx.clear j := by
  unfold collectSlot
  dsimp only
  split_ifs with hactive hstale
  · rcases destroyService_cases ctx (ctx.service i).id with ⟨-, heq⟩ | ⟨j, -, hj, hid, heq⟩
    · rw [heq]
      exact .inl rfl
    · rw [heq]
      exact .inr ⟨j, hj, hid, rfl⟩
  · exact .inl rfl
  · exact .inl rfl

/-- What clearing an active slot keeps, the garbage collection keeps after every slot. -/
theorem collect_of_clear {P : PolycallMicroContext → Prop}
    (hclear : ∀ ctx i, ctx.isActive i = true → P ctx → P (ctx.clear i)) (now : UInt64) :
    ∀ (slots : List Slot) (ctx : PolycallMicroContext), P ctx →
      P (slots.foldl (collectSlot now) ctx)
  | [], _, h => h
  | i :: slots, ctx, h => by
    refine collect_of_clear hclear now slots (collectSlot now ctx i) ?_
    rcases collectSlot_cases now ctx i with heq | ⟨j, hj, -, heq⟩
    · rw [heq]
      exact h
    · rw [heq]
      exact hclear ctx j hj h

/-- Every call keeps the count. -/
theorem counted_step (ctx : PolycallMicroContext) (call : UInt64 × Call) (h : Counted ctx) :
    Counted (step ctx call).1 := by
  obtain ⟨now, call⟩ := call
  cases call with
  | createService serviceId flags =>
    rcases createService_of_counted h now serviceId flags with
      ⟨-, heq⟩ | ⟨slot, ctx', -, -, heq, hcounted, -⟩
    · simp only [step, heq]
      exact h
    · simp only [step, heq]
      exact hcounted
  | destroyService serviceId =>
    rcases destroyService_cases ctx serviceId with ⟨-, heq⟩ | ⟨i, -, hi, -, heq⟩
    · simp only [step, heq]
      exact h
    · simp only [step, heq]
      exact (count_clear h hi).1
  | batchProcess serviceId commands =>
    simp only [step, batchProcess]
    repeat' split
    all_goals exact h
  | updateServiceState serviceId newState =>
    simp only [step, updateServiceState]
    split
    all_goals exact h
  | collectGarbage =>
    exact collect_of_clear (P := Counted) (fun _ _ hi h => (count_clear h hi).1) now _ ctx h

/-- A table that has just been initialized is counted: it is empty. -/
theorem init_success {host : InitHost} {storage : PolycallMicroContext}
    {config : Option PolycallConfig} (h : (init host storage config).1 = .success) :
    (init host storage config).2.serviceArray =
      ⟨List.Vector.replicate 32 zeroService, 0, 0, host.now⟩ := by
  cases config with
  | none => exact absurd h (by simp [init])
  | some config =>
    unfold init at h ⊢
    dsimp only at h ⊢
    split_ifs at h ⊢
    rfl

/-- A context that `init` has set up is counted. -/
theorem counted_init {host : InitHost} {storage : PolycallMicroContext}
    {config : Option PolycallConfig} (h : (init host storage config).1 = .success) :
    Counted (init host storage config).2 := by
  unfold Counted
  rw [init_success h]
  show (0 : UInt32).toNat = (Mask.slots 0).card
  rw [Mask.slots_zero]
  rfl

/-- In a context that has just been initialized no slot is active. -/
theorem isActive_init {host : InitHost} {storage : PolycallMicroContext}
    {config : Option PolycallConfig} (h : (init host storage config).1 = .success) (i : Slot) :
    (init host storage config).2.isActive i = false := by
  unfold PolycallMicroContext.isActive
  rw [init_success h, Bool.eq_false_iff]
  intro hi
  have hmem := Mask.mem_slots.2 hi
  rw [Mask.slots_zero] at hmem
  exact absurd hmem (Finset.notMem_empty i)

/-! ## Bookkeeping -/

/-- The bookkeeping of a table is in order: the counter is right, and whatever is called next, the
slot search ends within the table, no active slot is overwritten, and the counter does not
underflow. -/
structure Bookkeeping (ctx : PolycallMicroContext) : Prop where
  /-- `count` is the number of one-bits of `active_mask`. -/
  counted : ctx.serviceArray.count.toNat = (Mask.slots ctx.serviceArray.activeMask).card
  count_le : ctx.serviceArray.count.toNat ≤ 32
  /-- A `create_service` that passes the test of `count` finds a slot, which is not active. -/
  search_ends : ctx.serviceArray.count.toNat < 32 →
    ∃ slot, findSlot ctx.serviceArray.activeMask = some slot ∧ ctx.isActive slot = false
  create_fails_iff : ∀ now serviceId flags,
    (createService now ctx serviceId flags).1 ≠ .success ↔ ∀ i, ctx.isActive i = true
  create_keeps : ∀ now serviceId flags i, ctx.isActive i = true →
    (createService now ctx serviceId flags).2.service i = ctx.service i
  destroy_counts : ∀ serviceId, (destroyService ctx serviceId).1 = .success →
    (destroyService ctx serviceId).2.serviceArray.count.toNat + 1 =
      ctx.serviceArray.count.toNat

/-- The bookkeeping of a counted table is in order. -/
theorem bookkeeping_of_counted (h : Counted ctx) : Bookkeeping ctx := by
  refine ⟨h, ?_, ?_, ?_, ?_, ?_⟩
  · rw [h]
    exact Mask.card_slots_le _
  · -- While the count is below 32, a slot is free, and the search finds one.
    intro hlt
    rw [h] at hlt
    obtain ⟨free, hfree⟩ := Mask.card_slots_lt_iff.1 hlt
    rcases createService_of_counted h 0 0 0 with ⟨hall, -⟩ | ⟨slot, -, hslot, hidle, -⟩
    · have hset : Mask.isSet ctx.serviceArray.activeMask free = true := hall free
      rw [hfree] at hset
      exact absurd hset (by decide)
    · exact ⟨slot, hslot, hidle⟩
  · intro now serviceId flags
    rcases createService_of_counted h now serviceId flags with
      ⟨hall, heq⟩ | ⟨slot, ctx', -, hidle, heq, -⟩
    · rw [heq]
      exact iff_of_true (by simp) hall
    · rw [heq]
      refine iff_of_false (fun hne => hne rfl) fun hall => ?_
      rw [hall slot] at hidle
      exact absurd hidle (by decide)
  · -- The new service goes to an idle slot, so the active ones keep theirs.
    intro now serviceId flags i hi
    rcases createService_of_counted h now serviceId flags with
      ⟨-, heq⟩ | ⟨slot, ctx', -, hidle, heq, -, -, hservice⟩
    · rw [heq]
    · rw [heq, hservice, if_neg]
      rintro rfl
      rw [hi] at hidle
      exact absurd hidle (by decide)
  · intro serviceId hsuccess
    rcases destroyService_cases ctx serviceId with ⟨-, heq⟩ | ⟨i, -, hi, -, heq⟩
    · rw [heq] at hsuccess
      exact absurd hsuccess (by simp)
    · rw [heq]
      exact (count_clear h hi).2

/-- In every run from an initialized context, the bookkeeping is in order in every state reached,
and in the middle of a garbage collection, after any number of slots. -/
theorem bookkeeping_of_run {host : InitHost} {storage : PolycallMicroContext}
    {config : Option PolycallConfig} (hinit : (init host storage config).1 = .success)
    (calls : List (UInt64 × Call)) :
    let start := (init host storage config).2
    ((∀ m ∈ moves step start calls, Bookkeeping m.1) ∧ Bookkeeping (final step start calls)) ∧
      ∀ m ∈ moves step start calls, ∀ now n,
        Bookkeeping (((List.finRange 32).take n).foldl (collectSlot now) m.1) := by
  intro start
  have hrun := final_of_step counted_step start calls (counted_init hinit)
  refine ⟨⟨fun m hm => ?_, bookkeeping_of_counted hrun.2⟩, fun m hm now n => ?_⟩
  · exact bookkeeping_of_counted (hrun.1 m hm)
  · exact bookkeeping_of_counted (collect_of_clear (P := Counted)
      (fun _ _ hi h => (count_clear h hi).1) now _ m.1 (hrun.1 m hm))

/-- The storage of a context before it is initialized. -/
def zeroContext : PolycallMicroContext :=
  { serviceArray := ⟨List.Vector.replicate 32 zeroService, 0, 0, 0⟩, stateMachine := none,
    protocolCtx := ⟨0, none, 0, 0, .init, 0⟩, flags := 0, startupTime := 0 }

/-- A host on which every allocation succeeds. -/
def readyHost : InitHost := ⟨0, 0, 1, true, true, true⟩

/-- Two services of one id are created, the first one is destroyed, and an hour later the garbage
is collected. -/
theorem bookkeeping_of_run_twice :
    Bookkeeping (final step (init readyHost zeroContext (some ⟨0, 1⟩)).2
      [(0, .createService 7 0), (0, .createService 7 0), (1, .destroyService 7),
        (3601, .collectGarbage)]) :=
  (bookkeeping_of_run rfl _).1.2

end LibPolyCall.Micro
