import LibPolyCall.Micro.Queue
import LibPolyCall.Micro.Table

/-!
# Sweeps over the table

The garbage collection and the service loop of `cleanup` go over the slots, and destroy the service
of a slot by its id: what they clear is the first active slot with that id, which may be one that
they have passed already. The garbage collection decides by a difference of unsigned numbers, in
which a service that is dated in the future is an old one. It removes exactly the expired services
when no such service is dated in the future, and of the services with one id the expired ones come
first (`collect_garbage_iff`). The loop of `cleanup` ends at the counter that it lowers itself, so
that a second service is always left over (`cleanup_iff`).
-/

namespace LibPolyCall.Micro

open Runs

variable {ctx : PolycallMicroContext} {i j : Slot} {now : UInt64}

/-! ## One pass -/

/-- The search for the id of an active slot ends at that slot or before it. -/
theorem exists_findService (hi : ctx.isActive i = true) :
    ∃ j, ctx.findService (ctx.service i).id = some j ∧ ctx.isActive j = true ∧ j ≤ i := by
  cases hfind : ctx.findService (ctx.service i).id with
  | none => exact absurd rfl (findService_eq_none.1 hfind i hi)
  | some j =>
    obtain ⟨hj, hbefore⟩ := findService_eq_some.1 hfind
    exact ⟨j, rfl, hj.1, not_lt.1 fun hlt => hbefore i hlt hi rfl⟩

/-- A pass over an active slot that is stale clears the slot that the search for its id finds. -/
theorem collectSlot_of_stale (hi : ctx.isActive i = true) (hstale : Stale now (ctx.service i))
    (hfind : ctx.findService (ctx.service i).id = some j) :
    collectSlot now ctx i = ctx.clear j := by
  have hstale' : timeout < now - (ctx.service i).lastUpdate := hstale
  simp only [collectSlot, if_pos hi, if_pos hstale', destroyService, hfind]

/-- A pass over any other slot does nothing. -/
theorem collectSlot_of_not (h : ¬ (ctx.isActive i = true ∧ Stale now (ctx.service i))) :
    collectSlot now ctx i = ctx := by
  simp only [collectSlot]
  split_ifs with hi hstale
  · exact absurd ⟨hi, hstale⟩ h
  · rfl
  · rfl

/-- A pass leaves the slots behind it as they are. -/
theorem collectSlot_behind (hlt : i < j) :
    (collectSlot now ctx i).isActive j = ctx.isActive j ∧
      (collectSlot now ctx i).service j = ctx.service j := by
  by_cases h : ctx.isActive i = true ∧ Stale now (ctx.service i)
  · obtain ⟨k, hfind, -, hle⟩ := exists_findService h.1
    have hne : j ≠ k := ne_of_gt (lt_of_le_of_lt hle hlt)
    rw [collectSlot_of_stale h.1 h.2 hfind]
    rw [isActive_clear, decide_eq_false hne, Bool.not_false, Bool.and_true]
    exact ⟨rfl, service_clear_of_ne hne.symm⟩
  · rw [collectSlot_of_not h]
    exact ⟨rfl, rfl⟩

/-! ## The garbage collection -/

/-- The service is expired: its last update lies back longer than the timeout. -/
def Expired (now : UInt64) (service : PolycallServiceState) : Prop :=
  service.lastUpdate.toNat + timeout.toNat < now.toNat

/-- Whether a service is expired can be decided. -/
instance (now : UInt64) (service : PolycallServiceState) : Decidable (Expired now service) :=
  inferInstanceAs (Decidable (_ < _))

/-- The difference of the two times tells whether the service is expired: it is not dated in the
future, or so far that the difference is small again. -/
def Dated (now : UInt64) (service : PolycallServiceState) : Prop :=
  service.lastUpdate ≤ now ∨ now.toNat + (2 ^ 64 - timeout.toNat) ≤ service.lastUpdate.toNat

/-- The test of the code, in exact numbers. -/
theorem stale_iff {service : PolycallServiceState} :
    Stale now service ↔
      Expired now service ∨
        now < service.lastUpdate ∧
          service.lastUpdate.toNat < now.toNat + (2 ^ 64 - timeout.toNat) := by
  have htimeout : timeout.toNat = 3600 := rfl
  have hnow := now.toNat_lt
  have hupdate := service.lastUpdate.toNat_lt
  unfold Stale Expired
  rw [UInt64.lt_iff_toNat_lt, UInt64.lt_iff_toNat_lt, UInt64.toNat_sub, htimeout]
  omega

/-- The test of the code is exact on the services that it can tell. -/
theorem dated_iff {service : PolycallServiceState} :
    (Stale now service ↔ Expired now service) ↔ Dated now service := by
  have htimeout : timeout.toNat = 3600 := rfl
  have hupdate := service.lastUpdate.toNat_lt
  rw [stale_iff, Expired, Dated, UInt64.lt_iff_toNat_lt, UInt64.le_iff_toNat_le, htimeout]
  omega

/-- What is active after some passes was active before, and is as it was. -/
theorem collect_active (slots : List Slot)
    (h : (slots.foldl (collectSlot now) ctx).isActive j = true) :
    ctx.isActive j = true ∧ (slots.foldl (collectSlot now) ctx).service j = ctx.service j := by
  refine collect_of_clear (P := fun c => c.isActive j = true →
    ctx.isActive j = true ∧ c.service j = ctx.service j) ?_ now slots ctx (fun h => ⟨h, rfl⟩) h
  intro c i _ ih hj
  obtain ⟨hj', hservice⟩ := kept_of_isActive_clear hj
  rw [hservice]
  exact ih hj'

/-- A slot stays active while an earlier one with its id does. -/
theorem collect_blocked (hlt : j < i) :
    ∀ (slots : List Slot) (ctx : PolycallMicroContext),
      ctx.isActive i = true → (ctx.service j).id = (ctx.service i).id →
        (slots.foldl (collectSlot now) ctx).isActive j = true →
          (slots.foldl (collectSlot now) ctx).isActive i = true
  | [], _, hi, _, _ => hi
  | k :: slots, ctx, hi, hid, hj => by
    obtain ⟨hj₁, -⟩ := collect_active slots hj
    have hj₀ := @collect_active ctx j now [k] hj₁
    have hkept : (collectSlot now ctx k).isActive i = true ∧
        (collectSlot now ctx k).service i = ctx.service i := by
      by_cases h : ctx.isActive k = true ∧ Stale now (ctx.service k)
      · obtain ⟨m, hfind, -, -⟩ := exists_findService h.1
        -- The search does not get as far as slot `i`.
        have hne : i ≠ m := by
          rintro rfl
          obtain ⟨hm, hbefore⟩ := findService_eq_some.1 hfind
          exact hbefore j hlt hj₀.1 (hid.trans hm.2)
        rw [collectSlot_of_stale h.1 h.2 hfind]
        exact ⟨isActive_clear_iff.2 ⟨hi, hne⟩, service_clear_of_ne hne.symm⟩
      · rw [collectSlot_of_not h]
        exact ⟨hi, rfl⟩
    refine collect_blocked hlt slots _ hkept.1 ?_ hj
    rw [hkept.2, ← hid]
    exact congrArg PolycallServiceState.id hj₀.2

/-- Every pass over an active slot that is stale takes one from the counter, whichever slot it is
that is cleared: the passes are as many as there are such slots. -/
theorem collect_count :
    ∀ (slots : List Slot) (ctx : PolycallMicroContext), slots.Pairwise (· < ·) → Counted ctx →
      (slots.foldl (collectSlot now) ctx).serviceArray.count.toNat +
          (slots.countP fun i => ctx.isActive i && decide (Stale now (ctx.service i))) =
        ctx.serviceArray.count.toNat
  | [], _, _, _ => rfl
  | i :: slots, ctx, hsorted, hcounted => by
    rw [List.pairwise_cons] at hsorted
    have hcounted' : Counted (collectSlot now ctx i) :=
      collect_of_clear (P := Counted) (fun _ _ hi h => (count_clear h hi).1) now [i] ctx hcounted
    have ih := collect_count slots (collectSlot now ctx i) hsorted.2 hcounted'
    -- The slots of the other passes are as they were.
    have hbehind : (slots.countP fun k => (collectSlot now ctx i).isActive k &&
          decide (Stale now ((collectSlot now ctx i).service k))) =
        slots.countP fun k => ctx.isActive k && decide (Stale now (ctx.service k)) := by
      refine List.countP_congr fun k hk => ?_
      obtain ⟨hactive, hservice⟩ := @collectSlot_behind ctx i k now (hsorted.1 k hk)
      rw [hactive, hservice]
    rw [List.foldl_cons, List.countP_cons]
    by_cases h : ctx.isActive i = true ∧ Stale now (ctx.service i)
    · obtain ⟨j, hfind, hj, -⟩ := exists_findService h.1
      have hclear := (count_clear hcounted hj).2
      rw [← collectSlot_of_stale h.1 h.2 hfind] at hclear
      rw [if_pos (by simp [h.1, h.2])]
      omega
    · have hsame := collectSlot_of_not h
      rw [hsame] at ih hbehind ⊢
      rw [if_neg (by simpa using h)]
      omega

/-- The expired services are removed, and nothing else is: the other active slots stay as they are,
and the counter is lowered by the number of slots that were deactivated. -/
structure RemovesExpired (now : UInt64) (ctx ctx' : PolycallMicroContext) : Prop where
  active_iff : ∀ i, ctx'.isActive i = true ↔
    ctx.isActive i = true ∧ ¬ Expired now (ctx.service i)
  service_eq : ∀ i, ctx'.isActive i = true → ctx'.service i = ctx.service i
  count_eq : ctx'.serviceArray.count.toNat +
      ((List.finRange 32).countP fun i => ctx.isActive i && !ctx'.isActive i) =
    ctx.serviceArray.count.toNat

/-- The time of the last collection makes no difference. -/
theorem removesExpired_lastGc {ctx ctx' : PolycallMicroContext} (time : UInt64) :
    RemovesExpired now ctx
        { ctx' with serviceArray := { ctx'.serviceArray with lastGc := time } } ↔
      RemovesExpired now ctx ctx' :=
  ⟨fun h => ⟨h.1, h.2, h.3⟩, fun h => ⟨h.1, h.2, h.3⟩⟩

/-- The condition of the garbage collection: the differences of the times are exact, and of the
services with one id the expired ones come first. -/
structure Ordered (now : UInt64) (ctx : PolycallMicroContext) : Prop where
  dated : ∀ i, ctx.isActive i = true → Dated now (ctx.service i)
  first : ∀ i j, j < i → ctx.isActive i = true → ctx.isActive j = true →
    (ctx.service j).id = (ctx.service i).id → Expired now (ctx.service i) →
      Expired now (ctx.service j)

/-- Removing a service leaves the others in this order. -/
theorem Ordered.clear (h : Ordered now ctx) : Ordered now (ctx.clear i) := by
  refine ⟨fun j hj => ?_, fun k j hlt hk hj hid hexpired => ?_⟩
  · obtain ⟨hj', hservice⟩ := kept_of_isActive_clear hj
    rw [hservice]
    exact h.dated j hj'
  · obtain ⟨hj', hserviceJ⟩ := kept_of_isActive_clear hj
    obtain ⟨hk', hserviceK⟩ := kept_of_isActive_clear hk
    rw [hserviceJ, hserviceK] at hid
    rw [hserviceK] at hexpired
    rw [hserviceJ]
    exact h.first k j hlt hk' hj' hid hexpired

/-- The passes over the slots that have not been gone over, when the expired services stand among
these: in an ordered table a pass clears its own slot, so that at the end no expired service is
left. -/
theorem collect_of_ordered :
    ∀ (slots : List Slot) (ctx : PolycallMicroContext), slots.Pairwise (· < ·) →
      Ordered now ctx →
      (∀ j, ctx.isActive j = true → Expired now (ctx.service j) → j ∈ slots) →
        ∀ j, (slots.foldl (collectSlot now) ctx).isActive j = true ↔
          ctx.isActive j = true ∧ ¬ Expired now (ctx.service j)
  | [], ctx, _, _, hleft => fun j =>
    ⟨fun hj => ⟨hj, fun hexpired => by simpa using hleft j hj hexpired⟩, fun hj => hj.1⟩
  | i :: slots, ctx, hsorted, hordered, hleft => by
    rw [List.pairwise_cons] at hsorted
    rw [List.foldl_cons]
    by_cases h : ctx.isActive i = true ∧ Stale now (ctx.service i)
    · have hexpired : Expired now (ctx.service i) :=
        (dated_iff.2 (hordered.dated i h.1)).1 h.2
      obtain ⟨k, hfind, hk, hle⟩ := exists_findService h.1
      obtain rfl : k = i := by
        by_contra hne
        have hlt : k < i := lt_of_le_of_ne hle hne
        -- An earlier slot with the id would be expired, and the passes have gone over it.
        have hid := (isActive_of_findService hfind).2
        rcases List.mem_cons.1 (hleft k hk (hordered.first i k hlt h.1 hk hid hexpired)) with
          heq | hmem
        · exact hne heq
        · exact absurd (hsorted.1 k hmem) (not_lt.2 hle)
      rw [collectSlot_of_stale h.1 h.2 hfind]
      have ih := collect_of_ordered slots (ctx.clear k) hsorted.2 hordered.clear ?_
      · intro j
        rw [ih j, isActive_clear_iff]
        rcases eq_or_ne j k with rfl | hne
        · simp [hexpired]
        · rw [service_clear_of_ne hne.symm]
          simp [hne]
      · intro j hj hexpired'
        obtain ⟨hj', hne⟩ := isActive_clear_iff.1 hj
        rw [service_clear_of_ne hne.symm] at hexpired'
        exact (List.mem_cons.1 (hleft j hj' hexpired')).resolve_left hne
    · rw [collectSlot_of_not h]
      refine collect_of_ordered slots ctx hsorted.2 hordered fun j hj hexpired => ?_
      refine (List.mem_cons.1 (hleft j hj hexpired)).resolve_left ?_
      rintro rfl
      exact h ⟨hj, (dated_iff.2 (hordered.dated j hj)).2 hexpired⟩

/-- Of two tests of which one implies the other, and which as many elements pass, each implies the
other. -/
theorem imp_of_countP_le {α : Type*} {p q : α → Bool} :
    ∀ {xs : List α}, (∀ x ∈ xs, p x = true → q x = true) → xs.countP q ≤ xs.countP p →
      ∀ x ∈ xs, q x = true → p x = true
  | [], _, _ => by simp
  | x :: xs, himp, hcount => by
    rw [List.forall_mem_cons] at himp ⊢
    have hmono := List.countP_mono_left himp.2
    rw [List.countP_cons, List.countP_cons] at hcount
    refine ⟨fun hq => ?_, imp_of_countP_le himp.2 ?_⟩
    · by_contra hp
      rw [if_pos hq, if_neg hp] at hcount
      omega
    · by_cases hq : q x = true
      · by_cases hp : p x = true
        · rw [if_pos hq, if_pos hp] at hcount
          omega
        · rw [if_pos hq, if_neg hp] at hcount
          omega
      · rw [if_neg hq, if_neg fun hp => hq (himp.1 hp)] at hcount
        exact hcount

/-- Where what stays are the services that are not expired, what goes are those that are. -/
theorem gone_iff {ctx ctx' : PolycallMicroContext}
    (hactive : ∀ i, ctx'.isActive i = true ↔
      ctx.isActive i = true ∧ ¬ Expired now (ctx.service i)) (i : Slot) :
    (ctx.isActive i && !ctx'.isActive i) = true ↔
      ctx.isActive i = true ∧ Expired now (ctx.service i) := by
  rw [Bool.and_eq_true, Bool.not_eq_true', Bool.eq_false_iff, ne_eq, hactive]
  refine and_congr_right fun hi => ?_
  rw [not_and, not_not]
  exact ⟨fun h => h hi, fun h _ => h⟩

/-- The garbage collection of a counted table removes exactly the expired services when the table is
ordered, and only then. -/
theorem removesExpired_iff (hcounted : Counted ctx) (now : UInt64) :
    RemovesExpired now ctx (collectGarbage now ctx).2 ↔ Ordered now ctx := by
  set ctx' := (List.finRange 32).foldl (collectSlot now) ctx
  have hsorted : (List.finRange 32).Pairwise (· < ·) := List.pairwise_lt_finRange 32
  have hcount := @collect_count now _ ctx hsorted hcounted
  have hmem : ∀ j : Slot, j ∈ List.finRange 32 := List.mem_finRange
  have hswept : RemovesExpired now ctx (collectGarbage now ctx).2 ↔
      RemovesExpired now ctx ctx' := removesExpired_lastGc now
  rw [hswept]
  constructor
  · intro h
    have hgone := gone_iff h.active_iff
    -- As many services are removed as are stale, and those that are removed are expired.
    have hsame : ∀ i ∈ List.finRange 32,
        (ctx.isActive i && decide (Stale now (ctx.service i))) = true →
          (ctx.isActive i && !ctx'.isActive i) = true := by
      refine imp_of_countP_le (fun i _ hi => ?_) (le_of_eq ?_)
      · rw [hgone] at hi
        rw [Bool.and_eq_true, decide_eq_true_iff]
        exact ⟨hi.1, stale_iff.2 (.inl hi.2)⟩
      · exact Nat.add_left_cancel (hcount.trans h.count_eq.symm)
    have hexact : ∀ i, ctx.isActive i = true →
        (Stale now (ctx.service i) ↔ Expired now (ctx.service i)) := by
      refine fun i hi => ⟨fun hstale => ?_, fun hexpired => stale_iff.2 (.inl hexpired)⟩
      exact ((hgone i).1 (hsame i (hmem i) (by simp [hi, hstale]))).2
    refine ⟨fun i hi => dated_iff.1 (hexact i hi), fun i j hlt hi hj hid hexpired => ?_⟩
    by_contra hfresh
    -- The earlier service stays, and the search never gets beyond it.
    have hkept := collect_blocked hlt _ ctx hi hid ((h.active_iff j).2 ⟨hj, hfresh⟩)
    exact ((h.active_iff i).1 hkept).2 hexpired
  · intro h
    have hactive := collect_of_ordered _ ctx hsorted h fun j _ _ => hmem j
    refine ⟨hactive, fun i hi => (collect_active _ hi).2, ?_⟩
    rw [← hcount]
    congr 1
    refine List.countP_congr fun i _ => ?_
    rw [gone_iff hactive i, Bool.and_eq_true, decide_eq_true_iff]
    exact and_congr_right fun hi => (dated_iff.2 (h.dated i hi)).symm

/-- For every context that is reached from an initialized one and every time, the garbage collection
removes exactly the expired services if and only if the table is ordered: no active service is dated
in the future, unless by almost the whole range of the clock, and an expired service has no earlier
active slot with its id that is not expired. -/
theorem collect_garbage_iff {host : InitHost} {storage : PolycallMicroContext}
    {config : Option PolycallConfig} (hinit : (init host storage config).1 = .success)
    (calls : List (UInt64 × Call)) (now : UInt64) :
    let ctx := final step (init host storage config).2 calls
    RemovesExpired now ctx (collectGarbage now ctx).2 ↔ Ordered now ctx :=
  removesExpired_iff (queued_of_run hinit calls).1 now

/-- Two services with ids of their own, of which one is expired. -/
theorem collect_garbage_iff_two :
    RemovesExpired 3602
      (final step (init readyHost zeroContext (some ⟨0, 1⟩)).2
        [(0, .createService 7 0), (100, .createService 8 0)])
      (collectGarbage 3602
        (final step (init readyHost zeroContext (some ⟨0, 1⟩)).2
          [(0, .createService 7 0), (100, .createService 8 0)])).2 :=
  (@collect_garbage_iff readyHost zeroContext (some ⟨0, 1⟩) rfl _ 3602).2
    ⟨by unfold Dated; decide +kernel, by decide +kernel⟩

/-- After the clock has been set back by a second, a service that has just been created is removed,
though it is not expired. -/
theorem collect_garbage_future :
    ¬ RemovesExpired 99
      (final step (init readyHost zeroContext (some ⟨0, 1⟩)).2 [(100, .createService 7 0)])
      (collectGarbage 99
        (final step (init readyHost zeroContext (some ⟨0, 1⟩)).2
          [(100, .createService 7 0)])).2 := by
  intro h
  exact absurd ((h.active_iff 0).2 ⟨by decide, by decide +kernel⟩) (by decide +kernel)

/-! ## Shutdown -/

/-- The body of the service loop of `polycall_micro_cleanup`. -/
def cleanupSlot (ctx : PolycallMicroContext) (i : Slot) : PolycallMicroContext :=
  if ctx.isActive i then (destroyService ctx (ctx.service i).id).2 else ctx

/-- The service loop of `polycall_micro_cleanup`, over the slots that are left: it reads its bound
`count` anew in every round. Behind it the whole context is wiped. -/
def cleanupServices : List Slot → PolycallMicroContext → PolycallMicroContext
  | [], ctx => ctx
  | i :: slots, ctx =>
    if (i : ℕ) < ctx.serviceArray.count.toNat then cleanupServices slots (cleanupSlot ctx i)
    else ctx

/-- A round leaves the context as it was, or clears an active slot. -/
theorem cleanupSlot_cases (ctx : PolycallMicroContext) (i : Slot) :
    ctx.isActive i = false ∧ cleanupSlot ctx i = ctx ∨
      ctx.isActive i = true ∧ ∃ j, ctx.isActive j = true ∧ cleanupSlot ctx i = ctx.clear j := by
  unfold cleanupSlot
  cases hi : ctx.isActive i with
  | false => exact .inl ⟨rfl, if_neg (by decide)⟩
  | true =>
    obtain ⟨j, hfind, hj, -⟩ := exists_findService hi
    refine .inr ⟨rfl, j, hj, ?_⟩
    rw [if_pos rfl, destroyService, hfind]

/-- A round takes at most one from the counter. -/
theorem cleanupSlot_count (h : Counted ctx) (i : Slot) :
    Counted (cleanupSlot ctx i) ∧
      ctx.serviceArray.count.toNat ≤ (cleanupSlot ctx i).serviceArray.count.toNat + 1 := by
  rcases cleanupSlot_cases ctx i with ⟨-, heq⟩ | ⟨-, j, hj, heq⟩
  · rw [heq]
    exact ⟨h, Nat.le_succ _⟩
  · rw [heq]
    exact ⟨(count_clear h hj).1, (count_clear h hj).2.ge⟩

/-- From the second round on, the loop never destroys the last service: in a round that is gone
into, the counter is at least two. -/
theorem cleanupServices_pos :
    ∀ (slots : List Slot) (ctx : PolycallMicroContext), (∀ i ∈ slots, (i : ℕ) ≠ 0) →
      Counted ctx → 0 < ctx.serviceArray.count.toNat →
        0 < (cleanupServices slots ctx).serviceArray.count.toNat
  | [], _, _, _, hpos => hpos
  | i :: slots, ctx, hslots, hcounted, hpos => by
    rw [List.forall_mem_cons] at hslots
    rw [cleanupServices]
    split_ifs with hlt
    · -- The counter is above `i`, and `i` is not zero.
      obtain ⟨hcounted', hcount⟩ := cleanupSlot_count hcounted i
      have hpos' : 0 < (cleanupSlot ctx i).serviceArray.count.toNat := by
        have hi := hslots.1
        omega
      exact cleanupServices_pos slots _ hslots.2 hcounted' hpos'
    · exact hpos

/-- No service is left: no bit is set, and the counter is at zero. -/
def Emptied (ctx : PolycallMicroContext) : Prop :=
  ctx.serviceArray.activeMask = 0 ∧ ctx.serviceArray.count = 0

/-- A counted table is emptied when its counter is at zero. -/
theorem emptied_iff (h : Counted ctx) : Emptied ctx ↔ ctx.serviceArray.count.toNat = 0 := by
  constructor
  · intro hempty
    rw [hempty.2]
    rfl
  · intro hzero
    refine ⟨Mask.eq_zero_of_slots ?_, UInt32.toNat_inj.1 hzero⟩
    rw [← Finset.card_eq_zero, ← h, hzero]

/-- When no slot other than the first is active, the counter tells whether the first one is. -/
theorem only_first_iff (h : Counted ctx) :
    (∀ i, ctx.isActive i = true → i = 0) ↔
      ctx.serviceArray.count.toNat = if ctx.isActive 0 = true then 1 else 0 := by
  have hmem : ∀ i, i ∈ Mask.slots ctx.serviceArray.activeMask ↔ ctx.isActive i = true :=
    fun i => Mask.mem_slots
  rw [h]
  simp only [← hmem]
  split_ifs with h0
  · rw [Finset.card_eq_one]
    constructor
    · intro hall
      exact ⟨0, Finset.eq_singleton_iff_unique_mem.2 ⟨h0, hall⟩⟩
    · rintro ⟨k, hk⟩ i hi
      rw [hk, Finset.mem_singleton] at hi h0
      rw [hi, h0]
  · rw [Finset.card_eq_zero, Finset.eq_empty_iff_forall_notMem]
    constructor
    · intro hall i hi
      rw [hall i hi] at hi
      exact h0 hi
    · intro hnone i hi
      exact absurd hi (hnone i)

/-- The loop ends when no service is left. -/
theorem cleanupServices_zero (slots : List Slot) (h : ctx.serviceArray.count.toNat = 0) :
    cleanupServices slots ctx = ctx := by
  cases slots with
  | nil => rfl
  | cons i slots => rw [cleanupServices, if_neg (by omega)]

/-- For every context that is reached from an initialized one, the service loop of `cleanup` leaves
no service if and only if no slot other than the first is active. -/
theorem cleanup_iff {host : InitHost} {storage : PolycallMicroContext}
    {config : Option PolycallConfig} (hinit : (init host storage config).1 = .success)
    (calls : List (UInt64 × Call)) :
    let ctx := final step (init host storage config).2 calls
    Emptied (cleanupServices (List.finRange 32) ctx) ↔ ∀ i, ctx.isActive i = true → i = 0 := by
  intro ctx
  have hcounted : Counted ctx := (queued_of_run hinit calls).1
  rw [only_first_iff hcounted]
  rcases Nat.eq_zero_or_pos ctx.serviceArray.count.toNat with hzero | hpos
  · -- There is no service.
    have hidle : ¬ ctx.isActive 0 = true := by
      intro h0
      have hcount := (count_clear hcounted h0).2
      omega
    rw [cleanupServices_zero _ hzero, emptied_iff hcounted, if_neg hidle]
  · obtain ⟨hcounted', -⟩ := cleanupSlot_count hcounted 0
    -- Behind the first slot the loop bound falls with each service that is destroyed.
    have hrest : ∀ i ∈ (List.finRange 31).map Fin.succ, (i : ℕ) ≠ 0 := by
      intro i hi
      obtain ⟨j, -, rfl⟩ := List.mem_map.1 hi
      exact Nat.succ_ne_zero _
    -- So a service that is left after the first slot is left at the end.
    have hleft : 0 < (cleanupSlot ctx 0).serviceArray.count.toNat →
        ¬ Emptied (cleanupServices ((List.finRange 31).map Fin.succ) (cleanupSlot ctx 0)) := by
      intro hpos' hempty
      have hend := cleanupServices_pos _ _ hrest hcounted' hpos'
      rw [hempty.2] at hend
      exact absurd hend (by decide)
    have hfirst : ((0 : Slot) : ℕ) < ctx.serviceArray.count.toNat := hpos
    rw [List.finRange_succ, cleanupServices, if_pos hfirst]
    -- The first slot is idle, or its service goes.
    rcases cleanupSlot_cases ctx 0 with ⟨h0, heq⟩ | ⟨h0, j, hj, heq⟩
    · rw [if_neg (by rw [h0]; decide)]
      refine iff_of_false (hleft ?_) (by omega)
      rw [heq]
      exact hpos
    · have hcount := (count_clear hcounted hj).2
      rw [← heq] at hcount
      rw [if_pos h0]
      rcases Nat.eq_zero_or_pos (cleanupSlot ctx 0).serviceArray.count.toNat with hnone | hsome
      · rw [cleanupServices_zero _ hnone, emptied_iff hcounted']
        exact iff_of_true hnone (by omega)
      · exact iff_of_false (hleft hsome) (by omega)

/-- One service, in the first slot. -/
theorem cleanup_iff_one :
    Emptied (cleanupServices (List.finRange 32)
      (final step (init readyHost zeroContext (some ⟨0, 1⟩)).2 [(0, .createService 7 0)])) :=
  (@cleanup_iff readyHost zeroContext (some ⟨0, 1⟩) rfl _).2 (by decide)

/-- Of two services, the second one is left over. -/
theorem cleanup_two :
    ¬ Emptied (cleanupServices (List.finRange 32)
      (final step (init readyHost zeroContext (some ⟨0, 1⟩)).2
        [(0, .createService 7 0), (0, .createService 8 0)])) := by
  intro h
  exact absurd h.2 (by decide)

end LibPolyCall.Micro
