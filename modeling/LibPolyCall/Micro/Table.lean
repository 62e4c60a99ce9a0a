import LibPolyCall.Micro.Slots
import Mathlib.Data.Set.Card

/-!
# The table as a map

A call finds a service by its id: it acts on the first active slot that has it. As long as no two
active slots share an id, the table is a finite map from ids to services, and the calls are the
operations on this map (`refined_step`). The one call that can make two active slots share an id
is `create_service`, which does not look whether the id is in use. So the table is a map exactly
in the runs that create no id twice (`table_refines_map_iff`).
-/

namespace LibPolyCall.Micro

open Runs

/-! ## The abstract table -/

/-- A finite map from ids to services. -/
abbrev Table := UInt32 → Option PolycallServiceState

/-- The ids that have a service. -/
def Table.ids (T : Table) : Set UInt32 := {serviceId | T serviceId ≠ none}

/-- The service is stale: it has not been updated for longer than the timeout. -/
def Stale (now : UInt64) (service : PolycallServiceState) : Prop :=
  timeout < now - service.lastUpdate

/-- Whether a service is stale can be decided. -/
instance (now : UInt64) (service : PolycallServiceState) : Decidable (Stale now service) :=
  inferInstanceAs (Decidable (_ < _))

/-- An operation on the service of an id. -/
def Table.act (T : Table) (serviceId : UInt32)
    (f : PolycallServiceState → Option PolycallServiceState) : Table × PolycallMicroStatus :=
  match T serviceId with
  | none => (T, .errorService)
  | some service => (Function.update T serviceId (f service), .success)

open Classical in
/-- What a call means for the map. -/
noncomputable def Table.step (T : Table) (call : UInt64 × Call) : Table × PolycallMicroStatus :=
  match call.2 with
  | .createService serviceId flags =>
    if T.ids.ncard < maxServices then
      (Function.update T serviceId (some (newService call.1 serviceId flags)), .success)
    else (T, .errorService)
  | .destroyService serviceId => T.act serviceId fun _ => none
  | .updateServiceState serviceId newState =>
    T.act serviceId fun service => some { service with state := newState, lastUpdate := call.1 }
  | .batchProcess serviceId (some commands) =>
    T.act serviceId fun service => some (service.processed call.1 commands)
  | .batchProcess _ none => (T, .errorCommand)
  | .collectGarbage =>
    (fun serviceId => (T serviceId).filter fun service => ¬ Stale call.1 service, .success)

/-- The call asks for the service of this id. -/
def AsksFor (serviceId : UInt32) : Call → Prop
  | .destroyService other => other = serviceId
  | .updateServiceState other _ => other = serviceId
  | .batchProcess other (some _) => other = serviceId
  | _ => False

/-- The call creates a service of this id. -/
def Creates (serviceId : UInt32) (call : Call) : Prop :=
  ∃ flags, call = .createService serviceId flags

section Abstract

variable {T : Table} {serviceId : UInt32}

/-- An operation on the service of an id that has one. -/
theorem Table.act_of_some {service : PolycallServiceState} (h : T serviceId = some service)
    (f : PolycallServiceState → Option PolycallServiceState) :
    T.act serviceId f = (Function.update T serviceId (f service), .success) := by
  unfold Table.act
  rw [h]

/-- An operation on an id without a service. -/
theorem Table.act_of_none (h : T serviceId = none)
    (f : PolycallServiceState → Option PolycallServiceState) :
    T.act serviceId f = (T, .errorService) := by
  unfold Table.act
  rw [h]

/-- An id without a service has none after an operation on some id. -/
theorem Table.act_eq_none (h : T serviceId = none) (other : UInt32)
    (f : PolycallServiceState → Option PolycallServiceState) :
    (T.act other f).1 serviceId = none := by
  cases hother : T other with
  | none =>
    rw [Table.act_of_none hother]
    exact h
  | some service =>
    have hne : serviceId ≠ other := by
      rintro rfl
      rw [h] at hother
      exact absurd hother (by simp)
    rw [Table.act_of_some hother]
    exact (Function.update_of_ne hne _ _).trans h

/-- An id without a service gets one only by its creation. -/
theorem Table.step_eq_none (h : T serviceId = none) (call : UInt64 × Call)
    (hcreates : ¬ Creates serviceId call.2) : (T.step call).1 serviceId = none := by
  obtain ⟨now, call⟩ := call
  cases call with
  | createService other flags =>
    simp only [Table.step]
    split_ifs
    · have hne : serviceId ≠ other := by
        rintro rfl
        exact hcreates ⟨flags, rfl⟩
      exact (Function.update_of_ne hne _ _).trans h
    · exact h
  | destroyService other => exact Table.act_eq_none h _ _
  | updateServiceState other newState => exact Table.act_eq_none h _ _
  | batchProcess other commands? =>
    cases commands? with
    | none => exact h
    | some commands => exact Table.act_eq_none h _ _
  | collectGarbage =>
    simp only [Table.step, h]
    rfl

/-- A call that asks for an id without a service fails. -/
theorem Table.step_asks (h : T serviceId = none) (call : UInt64 × Call)
    (hasks : AsksFor serviceId call.2) : (T.step call).2 = .errorService := by
  obtain ⟨now, call⟩ := call
  cases call with
  | destroyService other =>
    have hother : other = serviceId := hasks
    subst hother
    exact congrArg Prod.snd (Table.act_of_none h _)
  | updateServiceState other newState =>
    have hother : other = serviceId := hasks
    subst hother
    exact congrArg Prod.snd (Table.act_of_none h _)
  | batchProcess other commands? =>
    cases commands? with
    | none => exact hasks.elim
    | some commands =>
      have hother : other = serviceId := hasks
      subst hother
      exact congrArg Prod.snd (Table.act_of_none h _)
  | createService other flags => exact hasks.elim
  | collectGarbage => exact hasks.elim

/-- A call leaves the services of other ids alone, unless it is a garbage collection. -/
theorem Table.step_other (T : Table) (call : UInt64 × Call) (hasks : ¬ AsksFor serviceId call.2)
    (hcreates : ¬ Creates serviceId call.2) (hgc : call.2 ≠ .collectGarbage) :
    (T.step call).1 serviceId = T serviceId := by
  have hact : ∀ (other : UInt32) (f : PolycallServiceState → Option PolycallServiceState),
      other ≠ serviceId → (T.act other f).1 serviceId = T serviceId := by
    intro other f hne
    cases hother : T other with
    | none => rw [Table.act_of_none hother]
    | some service =>
      rw [Table.act_of_some hother]
      exact Function.update_of_ne hne.symm _ _
  obtain ⟨now, call⟩ := call
  cases call with
  | createService other flags =>
    simp only [Table.step]
    split_ifs
    · refine Function.update_of_ne ?_ _ _
      rintro rfl
      exact hcreates ⟨flags, rfl⟩
    · rfl
  | destroyService other => exact hact other _ hasks
  | updateServiceState other newState => exact hact other _ hasks
  | batchProcess other commands? =>
    cases commands? with
    | none => rfl
    | some commands => exact hact other _ hasks
  | collectGarbage => exact absurd rfl hgc

end Abstract

/-! ## The table of a context -/

variable {ctx ctx' : PolycallMicroContext} {i j : Slot}

/-- The services of a context by their ids, as the loops of the operations find them. -/
def table (ctx : PolycallMicroContext) : Table := fun serviceId =>
  (ctx.findService serviceId).map ctx.service

/-- No two active slots hold the same id. -/
def DistinctIds (ctx : PolycallMicroContext) : Prop :=
  ∀ i j, ctx.isActive i = true → ctx.isActive j = true →
    (ctx.service i).id = (ctx.service j).id → i = j

/-- The service stands in an active slot. -/
def Holds (ctx : PolycallMicroContext) (service : PolycallServiceState) : Prop :=
  ∃ i, ctx.isActive i = true ∧ ctx.service i = service

/-- Fewer active slots with the ids that they had still have distinct ids. -/
theorem DistinctIds.mono (h : DistinctIds ctx)
    (hsub : ∀ j, ctx'.isActive j = true →
      ctx.isActive j = true ∧ (ctx'.service j).id = (ctx.service j).id) : DistinctIds ctx' := by
  intro i j hi hj hid
  obtain ⟨hi', hidi⟩ := hsub i hi
  obtain ⟨hj', hidj⟩ := hsub j hj
  exact h i j hi' hj' (by rw [← hidi, ← hidj, hid])

/-- With distinct ids, an active slot is found by its id. -/
theorem DistinctIds.findService (h : DistinctIds ctx) (hi : ctx.isActive i = true) :
    ctx.findService (ctx.service i).id = some i := by
  cases hfind : ctx.findService (ctx.service i).id with
  | none => exact absurd rfl (findService_eq_none.1 hfind i hi)
  | some j =>
    obtain ⟨hj, hid⟩ := isActive_of_findService hfind
    rw [h j i hj hi hid]

/-- With distinct ids, the table maps an id to the service that holds it. -/
theorem DistinctIds.table_eq_some (h : DistinctIds ctx) {serviceId : UInt32}
    {service : PolycallServiceState} :
    table ctx serviceId = some service ↔ Holds ctx service ∧ service.id = serviceId := by
  unfold table
  rw [Option.map_eq_some_iff]
  constructor
  · rintro ⟨i, hfind, rfl⟩
    obtain ⟨hi, hid⟩ := isActive_of_findService hfind
    exact ⟨⟨i, hi, rfl⟩, hid⟩
  · rintro ⟨⟨i, hi, rfl⟩, rfl⟩
    exact ⟨i, h.findService hi, rfl⟩

/-- The ids of the table are those of the active slots. -/
theorem ids_table (ctx : PolycallMicroContext) :
    (table ctx).ids = (fun i => (ctx.service i).id) '' {i | ctx.isActive i = true} := by
  ext serviceId
  have hnone : table ctx serviceId = none ↔ ctx.findService serviceId = none := by
    unfold table
    rw [Option.map_eq_none_iff]
  simp only [Table.ids, Set.mem_ofPred_eq, ne_eq, hnone, findService_eq_none, Set.mem_image]
  push Not
  rfl

/-- With distinct ids, the table has as many ids as active slots. -/
theorem DistinctIds.ncard_ids (h : DistinctIds ctx) :
    (table ctx).ids.ncard = (Mask.slots ctx.serviceArray.activeMask).card := by
  have hset : {i | ctx.isActive i = true} =
      (Mask.slots ctx.serviceArray.activeMask : Set Slot) := by
    ext i
    simp [PolycallMicroContext.isActive]
  have hinj : Set.InjOn (fun i => (ctx.service i).id) {i | ctx.isActive i = true} :=
    fun i hi j hj hid => h i j hi hj hid
  rw [ids_table, hinj.ncard_image, hset, Set.ncard_coe_finset]

/-- Where two contexts hold the same services but for those of one id, their tables differ at
most there. -/
theorem table_eq_update (h : DistinctIds ctx) (h' : DistinctIds ctx') {serviceId : UInt32}
    (hother : ∀ service, service.id ≠ serviceId → (Holds ctx' service ↔ Holds ctx service)) :
    table ctx' = Function.update (table ctx) serviceId (table ctx' serviceId) := by
  funext other
  rcases eq_or_ne other serviceId with rfl | hne
  · rw [Function.update_self]
  · rw [Function.update_of_ne hne]
    refine Option.ext fun service => ?_
    rw [h'.table_eq_some, h.table_eq_some]
    constructor
    · rintro ⟨hholds, rfl⟩
      exact ⟨(hother service hne).1 hholds, rfl⟩
    · rintro ⟨hholds, rfl⟩
      exact ⟨(hother service hne).2 hholds, rfl⟩

/-! ## What the calls do to the table -/

/-- A service rewritten in its slot under its id is rewritten in the table. -/
theorem DistinctIds.setService (h : DistinctIds ctx) (hi : ctx.isActive i = true)
    {service : PolycallServiceState} (hid : service.id = (ctx.service i).id) :
    DistinctIds (ctx.setService i service) ∧
      table (ctx.setService i service) =
        Function.update (table ctx) (ctx.service i).id (some service) := by
  have hdistinct : DistinctIds (ctx.setService i service) := by
    refine h.mono fun j hj => ⟨hj, ?_⟩
    rcases eq_or_ne i j with rfl | hne
    · rw [service_setService_self, hid]
    · rw [service_setService_of_ne _ hne]
  refine ⟨hdistinct, ?_⟩
  have hself : table (ctx.setService i service) (ctx.service i).id = some service :=
    hdistinct.table_eq_some.2 ⟨⟨i, hi, service_setService_self _⟩, hid⟩
  rw [← hself]
  refine table_eq_update h hdistinct fun other hother => ?_
  constructor
  · rintro ⟨j, hj, rfl⟩
    have hne : i ≠ j := by
      rintro rfl
      rw [service_setService_self] at hother
      exact hother hid
    exact ⟨j, hj, (service_setService_of_ne _ hne).symm⟩
  · rintro ⟨j, hj, rfl⟩
    have hne : i ≠ j := by
      rintro rfl
      exact hother rfl
    exact ⟨j, hj, service_setService_of_ne _ hne⟩

/-- A cleared slot takes its id out of the table. -/
theorem DistinctIds.clear (h : DistinctIds ctx) (hi : ctx.isActive i = true) :
    DistinctIds (ctx.clear i) ∧
      table (ctx.clear i) = Function.update (table ctx) (ctx.service i).id none := by
  have hdistinct : DistinctIds (ctx.clear i) := by
    refine h.mono fun j hj => ?_
    obtain ⟨hj', hservice⟩ := kept_of_isActive_clear hj
    exact ⟨hj', congrArg PolycallServiceState.id hservice⟩
  refine ⟨hdistinct, ?_⟩
  have hself : table (ctx.clear i) (ctx.service i).id = none := by
    unfold table
    rw [Option.map_eq_none_iff, findService_eq_none]
    intro j hj hid
    obtain ⟨hj', hne⟩ := isActive_clear_iff.1 hj
    rw [service_clear_of_ne hne.symm] at hid
    exact hne (h i j hi hj' hid.symm).symm
  rw [← hself]
  refine table_eq_update h hdistinct fun other hother => ?_
  constructor
  · rintro ⟨j, hj, rfl⟩
    obtain ⟨hj', hservice⟩ := kept_of_isActive_clear hj
    exact ⟨j, hj', hservice.symm⟩
  · rintro ⟨j, hj, rfl⟩
    have hne : i ≠ j := by
      rintro rfl
      exact hother rfl
    exact ⟨j, isActive_clear_iff.2 ⟨hj, hne.symm⟩, service_clear_of_ne hne⟩

/-- A service created under a new id is added to the table. -/
theorem DistinctIds.create (h : DistinctIds ctx) {slot : Slot} (hidle : ctx.isActive slot = false)
    {service : PolycallServiceState}
    (hactive : ∀ j, ctx'.isActive j = (ctx.isActive j || decide (j = slot)))
    (hservice : ∀ j, ctx'.service j = if j = slot then service else ctx.service j)
    (hnew : ∀ j, ctx.isActive j = true → (ctx.service j).id ≠ service.id) :
    DistinctIds ctx' ∧ table ctx' = Function.update (table ctx) service.id (some service) := by
  have hslot : ctx'.isActive slot = true ∧ ctx'.service slot = service := by
    rw [hactive, hservice]
    simp
  have hold : ∀ j, j ≠ slot → (ctx'.isActive j = true ↔ ctx.isActive j = true) ∧
      ctx'.service j = ctx.service j := by
    intro j hj
    rw [hactive, hservice]
    simp [hj]
  have hne : ∀ j, ctx.isActive j = true → j ≠ slot := by
    rintro j hj rfl
    rw [hj] at hidle
    exact absurd hidle (by decide)
  have hdistinct : DistinctIds ctx' := by
    intro i j hi hj hid
    -- The new service has another id than those before it.
    rcases eq_or_ne i slot with rfl | hi' <;> rcases eq_or_ne j i with rfl | hij
    · rfl
    · obtain ⟨hj', hsame⟩ := hold j hij
      rw [hslot.2, hsame] at hid
      exact absurd hid.symm (hnew j (hj'.1 hj))
    · rfl
    · obtain ⟨hi'', hsame⟩ := hold i hi'
      rcases eq_or_ne j slot with rfl | hj'
      · rw [hslot.2, hsame] at hid
        exact absurd hid (hnew i (hi''.1 hi))
      · obtain ⟨hj'', hsame'⟩ := hold j hj'
        rw [hsame, hsame'] at hid
        exact h i j (hi''.1 hi) (hj''.1 hj) hid
  refine ⟨hdistinct, ?_⟩
  have hself : table ctx' service.id = some service :=
    hdistinct.table_eq_some.2 ⟨⟨slot, hslot⟩, rfl⟩
  rw [← hself]
  refine table_eq_update h hdistinct fun other hother => ?_
  constructor
  · rintro ⟨j, hj, rfl⟩
    have hj' : j ≠ slot := by
      rintro rfl
      exact hother (by rw [hslot.2])
    obtain ⟨hiff, hsame⟩ := hold j hj'
    exact ⟨j, hiff.1 hj, hsame.symm⟩
  · rintro ⟨j, hj, rfl⟩
    obtain ⟨hiff, hsame⟩ := hold j (hne j hj)
    exact ⟨j, hiff.2 hj, hsame⟩

/-- With distinct ids, a pass of the garbage collection clears its own slot if that is stale. -/
theorem DistinctIds.collectSlot (h : DistinctIds ctx) (now : UInt64) (i : Slot) :
    collectSlot now ctx i =
      if ctx.isActive i = true ∧ Stale now (ctx.service i) then ctx.clear i else ctx := by
  unfold Micro.collectSlot Stale
  dsimp only
  split_ifs with hactive hstale hboth hboth hboth
  · rw [destroyService, h.findService hactive]
  · exact absurd ⟨hactive, hstale⟩ hboth
  · exact absurd hboth.2 hstale
  · rfl
  · exact absurd hboth.1 hactive
  · rfl

/-- With distinct ids, the slots that the garbage collection has passed are active afterwards
unless they were stale, and what is still active is as it was. -/
theorem collect_slots (now : UInt64) :
    ∀ (slots : List Slot) (ctx : PolycallMicroContext), DistinctIds ctx →
      DistinctIds (slots.foldl (collectSlot now) ctx) ∧
      ∀ j, ((slots.foldl (collectSlot now) ctx).isActive j = true ↔
          ctx.isActive j = true ∧ ¬ (j ∈ slots ∧ Stale now (ctx.service j))) ∧
        ((slots.foldl (collectSlot now) ctx).isActive j = true →
          (slots.foldl (collectSlot now) ctx).service j = ctx.service j)
  | [], ctx, h => ⟨h, fun j => ⟨by simp, fun _ => rfl⟩⟩
  | i :: slots, ctx, h => by
    rw [List.foldl_cons, h.collectSlot now i]
    split_ifs with hi
    · obtain ⟨hdistinct, ih⟩ := collect_slots now slots (ctx.clear i) (h.clear hi.1).1
      refine ⟨hdistinct, fun j => ?_⟩
      obtain ⟨hiff, hsame⟩ := ih j
      rcases eq_or_ne i j with rfl | hne
      · -- The slot itself has been cleared, and it was stale.
        have hgone : ¬ (slots.foldl (collectSlot now) (ctx.clear i)).isActive i = true := by
          rw [hiff, isActive_clear_iff]
          exact fun h => h.1.2 rfl
        exact ⟨iff_of_false hgone fun hj => hj.2 ⟨List.mem_cons_self, hi.2⟩,
          fun hj => absurd hj hgone⟩
      · -- The other slots are passed as they would be without it.
        rw [service_clear_of_ne hne] at hiff hsame
        refine ⟨hiff.trans ?_, hsame⟩
        rw [isActive_clear_iff, List.mem_cons]
        simp [hne.symm]
    · obtain ⟨hdistinct, ih⟩ := collect_slots now slots ctx h
      refine ⟨hdistinct, fun j => ⟨(ih j).1.trans ?_, (ih j).2⟩⟩
      rw [List.mem_cons]
      -- The slot is kept, so being passed makes no difference to it.
      constructor
      · rintro ⟨hj, hno⟩
        refine ⟨hj, ?_⟩
        rintro ⟨rfl | hmem, hstale⟩
        · exact hi ⟨hj, hstale⟩
        · exact hno ⟨hmem, hstale⟩
      · rintro ⟨hj, hno⟩
        exact ⟨hj, fun hmem => hno ⟨.inr hmem.1, hmem.2⟩⟩

/-- With distinct ids, the garbage collection takes the stale services out of the table. -/
theorem DistinctIds.collectGarbage (h : DistinctIds ctx) (now : UInt64) :
    DistinctIds (collectGarbage now ctx).2 ∧
      table (collectGarbage now ctx).2 = fun serviceId =>
        (table ctx serviceId).filter fun service => ¬ Stale now service := by
  obtain ⟨hdistinct, hslots⟩ := collect_slots now (List.finRange 32) ctx h
  unfold Micro.collectGarbage
  dsimp only
  generalize (List.finRange 32).foldl (Micro.collectSlot now) ctx = swept at hdistinct hslots ⊢
  -- The time that is set at the end is not looked at.
  set ctx' := { swept with serviceArray := { swept.serviceArray with lastGc := now } }
  have hdistinct' : DistinctIds ctx' := hdistinct
  refine ⟨hdistinct', ?_⟩
  funext serviceId
  refine Option.ext fun service => ?_
  rw [hdistinct'.table_eq_some, Option.filter_eq_some_iff, h.table_eq_some, decide_eq_true_iff]
  have hholds : Holds ctx' service ↔ Holds ctx service ∧ ¬ Stale now service := by
    constructor
    · rintro ⟨i, hi, rfl⟩
      obtain ⟨hiff, hsame⟩ := hslots i
      obtain ⟨hi', hfresh⟩ := hiff.1 hi
      have hkept : ctx'.service i = ctx.service i := hsame hi
      rw [hkept]
      exact ⟨⟨i, hi', rfl⟩, fun hstale => hfresh ⟨List.mem_finRange i, hstale⟩⟩
    · rintro ⟨⟨i, hi, rfl⟩, hfresh⟩
      obtain ⟨hiff, hsame⟩ := hslots i
      have hi' := hiff.2 ⟨hi, fun hstale => hfresh hstale.2⟩
      exact ⟨i, hi', hsame hi'⟩
  rw [hholds]
  tauto

/-! ## Refinement -/

/-- The call creates no service under an id that is in use, unless the table is full. -/
def CreatesFresh (ctx : PolycallMicroContext) (call : UInt64 × Call) : Prop :=
  ∀ serviceId flags, call.2 = .createService serviceId flags →
    (∀ i, ctx.isActive i = true) ∨ ∀ i, ctx.isActive i = true → (ctx.service i).id ≠ serviceId

/-- The service that a call finds is the one that the table has. -/
theorem table_of_findService {serviceId : UInt32} (h : ctx.findService serviceId = some i) :
    table ctx serviceId = some (ctx.service i) := by
  unfold table
  rw [h, Option.map_some]

/-- Where a call finds no service, the table has none. -/
theorem table_of_findService_none {serviceId : UInt32} (h : ctx.findService serviceId = none) :
    table ctx serviceId = none := by
  unfold table
  rw [h, Option.map_none]

/-- A call on the context is the operation on the map. -/
structure Refined (ctx : PolycallMicroContext) (call : UInt64 × Call) : Prop where
  table_eq : table (step ctx call).1 = ((table ctx).step call).1
  status_eq : (step ctx call).2 = ((table ctx).step call).2

/-- A call on a table with distinct ids is the operation on the map, and keeps the ids distinct,
unless it creates a service under an id that is in use. -/
theorem refined_step (hcounted : Counted ctx) (h : DistinctIds ctx) (call : UInt64 × Call)
    (hfresh : CreatesFresh ctx call) :
    DistinctIds (step ctx call).1 ∧ Refined ctx call := by
  suffices hpair : DistinctIds (step ctx call).1 ∧
      (table (step ctx call).1, (step ctx call).2) = (table ctx).step call from
    ⟨hpair.1, congrArg Prod.fst hpair.2, congrArg Prod.snd hpair.2⟩
  obtain ⟨now, call⟩ := call
  cases call with
  | createService serviceId flags =>
    -- The ids are as many as the active slots, so a full table is one without a free slot.
    have hcard := h.ncard_ids
    simp only [step, Table.step]
    rcases createService_of_counted hcounted now serviceId flags with
      ⟨hall, heq⟩ | ⟨slot, ctx', -, hidle, heq, -, hactive, hservice⟩
    · have hfull : ¬ (table ctx).ids.ncard < maxServices := by
        rw [hcard]
        intro hlt
        obtain ⟨i, hi⟩ := Mask.card_slots_lt_iff.1 hlt
        have hset : Mask.isSet ctx.serviceArray.activeMask i = true := hall i
        rw [hi] at hset
        exact absurd hset (by decide)
      rw [heq, if_neg hfull]
      exact ⟨h, rfl⟩
    · -- A slot is free, and the new service has an id of its own.
      have hroom : (table ctx).ids.ncard < maxServices := by
        rw [hcard]
        exact Mask.card_slots_lt_iff.2 ⟨slot, hidle⟩
      have hnew : ∀ j, ctx.isActive j = true → (ctx.service j).id ≠ serviceId := by
        rcases hfresh serviceId flags rfl with hall | hnew
        · rw [hall slot] at hidle
          exact absurd hidle (by decide)
        · exact hnew
      obtain ⟨hdistinct, htable⟩ := h.create hidle hactive hservice hnew
      rw [heq, if_pos hroom]
      exact ⟨hdistinct, Prod.ext htable rfl⟩
  | destroyService serviceId =>
    simp only [step, Table.step]
    rcases destroyService_cases ctx serviceId with ⟨hfind, heq⟩ | ⟨i, hfind, hi, hid, heq⟩
    · rw [heq, Table.act_of_none (table_of_findService_none hfind)]
      exact ⟨h, rfl⟩
    · obtain ⟨hdistinct, htable⟩ := h.clear hi
      rw [heq, Table.act_of_some (table_of_findService hfind), htable, hid]
      exact ⟨hdistinct, rfl⟩
  | updateServiceState serviceId newState =>
    simp only [step, Table.step, updateServiceState]
    cases hfind : ctx.findService serviceId with
    | none =>
      rw [Table.act_of_none (table_of_findService_none hfind)]
      exact ⟨h, rfl⟩
    | some i =>
      obtain ⟨hi, rfl⟩ := isActive_of_findService hfind
      -- The service keeps its id, so the table changes at this id only.
      have hwritten := h.setService hi (show
        ({ ctx.service i with state := newState, lastUpdate := now } : PolycallServiceState).id =
          (ctx.service i).id from rfl)
      rw [Table.act_of_some (table_of_findService hfind)]
      exact ⟨hwritten.1, Prod.ext hwritten.2 rfl⟩
  | batchProcess serviceId commands? =>
    cases commands? with
    | none => exact ⟨h, rfl⟩
    | some commands =>
      simp only [step, Table.step, batchProcess]
      cases hfind : ctx.findService serviceId with
      | none =>
        rw [Table.act_of_none (table_of_findService_none hfind)]
        exact ⟨h, rfl⟩
      | some i =>
        obtain ⟨hi, rfl⟩ := isActive_of_findService hfind
        -- The same for the queue of the service.
        have hwritten := h.setService hi
          (show ((ctx.service i).processed now commands).id = (ctx.service i).id from rfl)
        rw [Table.act_of_some (table_of_findService hfind)]
        exact ⟨hwritten.1, Prod.ext hwritten.2 rfl⟩
  | collectGarbage =>
    obtain ⟨hdistinct, htable⟩ := h.collectGarbage now
    exact ⟨hdistinct, Prod.ext htable rfl⟩

/-- In a run, the table is a map from ids to services: no two active slots ever hold the same id,
every call is the operation on the map, and so a created service is the one that its id stands
for, a destroyed one is gone until its id is created again, and the services of other ids are left
untouched. -/
structure RefinesMap (start : PolycallMicroContext) (calls : List (UInt64 × Call)) : Prop where
  distinct : ∀ m ∈ moves step start calls, DistinctIds m.1
  distinct_final : DistinctIds (final step start calls)
  refined : ∀ m ∈ moves step start calls, Refined m.1 m.2
  created : ∀ m ∈ moves step start calls, ∀ serviceId flags,
    m.2.2 = .createService serviceId flags → (step m.1 m.2).2 = .success →
    table (step m.1 m.2).1 serviceId = some (newService m.2.1 serviceId flags)
  destroyed : ∀ before now serviceId between call after,
    calls = before ++ (now, .destroyService serviceId) :: (between ++ call :: after) →
    (step (final step start before) (now, .destroyService serviceId)).2 = .success →
    (∀ c ∈ between, ¬ Creates serviceId c.2) → AsksFor serviceId call.2 →
    (step (final step start (before ++ (now, .destroyService serviceId) :: between)) call).2 =
      .errorService
  others : ∀ m ∈ moves step start calls, ∀ serviceId, ¬ AsksFor serviceId m.2.2 →
    ¬ Creates serviceId m.2.2 → m.2.2 ≠ .collectGarbage →
    table (step m.1 m.2).1 serviceId = table m.1 serviceId

/-- A destroyed service is gone until its id is created again, in a run of operations on the
map. -/
theorem errorService_of_destroyed {start : PolycallMicroContext} {calls : List (UInt64 × Call)}
    (hrefined : ∀ m ∈ moves step start calls, Refined m.1 m.2)
    {before between after : List (UInt64 × Call)} {now : UInt64} {serviceId : UInt32}
    {call : UInt64 × Call}
    (hcalls : calls = before ++ (now, .destroyService serviceId) :: (between ++ call :: after))
    (hsuccess : (step (final step start before) (now, .destroyService serviceId)).2 = .success)
    (hbetween : ∀ c ∈ between, ¬ Creates serviceId c.2) (hasks : AsksFor serviceId call.2) :
    (step (final step start (before ++ (now, .destroyService serviceId) :: between)) call).2 =
      .errorService := by
  rw [final_append, final_cons]
  set ctx := final step start before with hctx
  set ctx' := (step ctx (now, .destroyService serviceId)).1 with hctx'
  -- The steps of the parts of the run are steps of the run.
  have hmoves : ∀ m, m ∈ (ctx, (now, .destroyService serviceId)) ::
      (moves step ctx' between ++ [(final step ctx' between, call)]) →
      Refined m.1 m.2 := by
    intro m hm
    refine hrefined m ?_
    rw [hcalls, moves_append, moves_cons, moves_append, moves_cons]
    simp only [List.mem_append, List.mem_cons, List.not_mem_nil, or_false] at hm ⊢
    tauto
  rw [List.forall_mem_cons, List.forall_mem_append, List.forall_mem_singleton] at hmoves
  obtain ⟨hdestroy, hmiddle, hlast⟩ := hmoves
  have hgone : table ctx' serviceId = none := by
    have hmap : table ctx' = ((table ctx).act serviceId fun _ => none).1 := hdestroy.table_eq
    have hstatus : ((table ctx).act serviceId fun _ => none).2 = .success :=
      hdestroy.status_eq.symm.trans hsuccess
    cases hfound : table ctx serviceId with
    | none =>
      rw [Table.act_of_none hfound] at hstatus
      exact absurd hstatus (by simp)
    | some service =>
      rw [hmap, Table.act_of_some hfound]
      exact Function.update_self _ _ _
  have hrun := moves_of_step (P := fun c => table c serviceId = none)
    (C := fun c call => Refined c call ∧ ¬ Creates serviceId call.2)
    (fun c call hc hcall => by
      rw [hcall.1.table_eq]
      exact Table.step_eq_none hc call hcall.2)
    ctx' between hgone
    fun m hm => ⟨hmiddle m hm, hbetween m.2 (snd_mem_of_mem_moves hm)⟩
  rw [hlast.status_eq]
  exact Table.step_asks hrun.2 call hasks

/-- A table that has just been initialized has distinct ids: no slot is active. -/
theorem distinctIds_init {host : InitHost} {storage : PolycallMicroContext}
    {config : Option PolycallConfig} (h : (init host storage config).1 = .success) :
    DistinctIds (init host storage config).2 := by
  intro i j hi
  rw [isActive_init h i] at hi
  cases hi

/-- Where the ids stay distinct, no service is created under an id that is in use. -/
theorem createsFresh_of_distinct (hcounted : Counted ctx) {call : UInt64 × Call}
    (h : DistinctIds (step ctx call).1) : CreatesFresh ctx call := by
  obtain ⟨now, call⟩ := call
  intro serviceId flags hcall
  dsimp only at hcall
  subst hcall
  simp only [step] at h
  rcases createService_of_counted hcounted now serviceId flags with
    ⟨hall, -⟩ | ⟨slot, ctx', -, hidle, heq, -, hactive, hservice⟩
  · exact .inl hall
  · right
    intro i hi hid
    rw [heq] at h
    have hne : i ≠ slot := by
      rintro rfl
      rw [hi] at hidle
      exact absurd hidle (by decide)
    -- The two slots would hold the same id.
    refine hne (h i slot ?_ ?_ ?_)
    · rw [hactive, hi, Bool.true_or]
    · rw [hactive]
      simp
    · rw [hservice, hservice, if_neg hne, if_pos rfl, hid]
      rfl

/-- From an initialized context, the table is a map in a run exactly when the run creates no
service under an id that is in use. -/
theorem table_refines_map_iff {host : InitHost} {storage : PolycallMicroContext}
    {config : Option PolycallConfig} (hinit : (init host storage config).1 = .success)
    (calls : List (UInt64 × Call)) :
    RefinesMap (init host storage config).2 calls ↔
      ∀ m ∈ moves step (init host storage config).2 calls, CreatesFresh m.1 m.2 := by
  set start := (init host storage config).2
  have hcounted := final_of_step counted_step start calls (counted_init hinit)
  constructor
  · intro h m hm
    have hnext := next_of_moves (P := DistinctIds) start calls h.distinct h.distinct_final m hm
    exact createsFresh_of_distinct (hcounted.1 m hm) hnext
  · intro hfresh
    have hrun := moves_of_step (P := fun c => Counted c ∧ DistinctIds c) (C := CreatesFresh)
      (fun c call hc hcall => ⟨counted_step c call hc.1, (refined_step hc.1 hc.2 call hcall).1⟩)
      start calls ⟨counted_init hinit, distinctIds_init hinit⟩ hfresh
    have hrefined : ∀ m ∈ moves step start calls, Refined m.1 m.2 := fun m hm =>
      (refined_step (hrun.1 m hm).1 (hrun.1 m hm).2 m.2 (hfresh m hm)).2
    refine ⟨fun m hm => (hrun.1 m hm).2, hrun.2.2, hrefined, ?_, ?_, ?_⟩
    · intro m hm serviceId flags hcall hsuccess
      have hmap := (hrefined m hm).table_eq
      have hstatus := (hrefined m hm).status_eq.symm.trans hsuccess
      rw [Table.step, hcall] at hmap hstatus
      dsimp only at hmap hstatus
      split_ifs at hmap hstatus
      rw [hmap]
      exact Function.update_self _ _ _
    · intro before now serviceId between call after hcalls hsuccess hbetween hasks
      exact errorService_of_destroyed hrefined hcalls hsuccess hbetween hasks
    · intro m hm serviceId hasks hcreates hgc
      rw [(hrefined m hm).table_eq]
      exact Table.step_other _ m.2 hasks hcreates hgc

/-- A service that is created and updated. -/
theorem table_refines_map_iff_once :
    RefinesMap (init readyHost zeroContext (some ⟨0, 1⟩)).2
      [(0, .createService 7 0), (1, .updateServiceState 7 2)] := by
  refine (table_refines_map_iff rfl _).2 ?_
  simp only [moves_cons, moves_nil, List.forall_mem_cons]
  refine ⟨?_, ?_, by simp⟩
  · have hidle : ∀ i, (init readyHost zeroContext (some ⟨0, 1⟩)).2.isActive i = false := by decide
    intro serviceId flags _
    right
    intro i hi
    rw [hidle i] at hi
    exact absurd hi (by decide)
  · rintro serviceId flags ⟨⟩

/-- Two services created under one id stand in two slots. -/
theorem created_twice :
    (init readyHost zeroContext (some ⟨0, 1⟩)).1 = .success ∧
      ¬ RefinesMap (init readyHost zeroContext (some ⟨0, 1⟩)).2
        [(0, .createService 7 0), (0, .createService 7 0)] := by
  refine ⟨rfl, fun h => ?_⟩
  exact absurd (h.distinct_final 0 1 (by decide) (by decide) (by decide)) (by decide)

end LibPolyCall.Micro
