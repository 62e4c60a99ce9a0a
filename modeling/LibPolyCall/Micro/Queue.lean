import LibPolyCall.Micro.Slots

/-!
# The command queues

`batch_process` appends the commands of an array to the queue of the service that it finds, but
for those whose payload is too large and those that come when the queue is full: it passes over
these, and answers `success` all the same. So the queue of a service with an id of its own is the
first 64 of all the commands that fit (`queue_of_batches`), and a batch is in the queue as a whole
only where none of it is passed over (`batch_appended_iff`).
-/

namespace LibPolyCall.Micro

open Runs

variable {ctx : PolycallMicroContext} {i j : Slot}

/-! ## One queue -/

/-- The test of `batch_process` on a command: its payload fits into the buffer. -/
def PolycallCommand.fits (cmd : PolycallCommand) : Bool := cmd.payloadSize.toNat ≤ bufferSize

/-- A queue that is not longer than its capacity. -/
def PolycallCommandArray.Bounded (queue : PolycallCommandArray) : Prop :=
  queue.count ≤ queue.capacity.toNat

/-- A command that fits is appended while there is room, and else nothing happens. -/
theorem enqueue_eq (queue : PolycallCommandArray) (cmd : PolycallCommand) :
    enqueue queue cmd =
      if cmd.fits = true ∧ queue.count < queue.capacity.toNat then
        { queue with commands := queue.commands ++ [cmd] }
      else queue := by
  have hfits : cmd.fits = true ↔ cmd.payloadSize.toNat ≤ bufferSize := decide_eq_true_iff
  unfold enqueue
  by_cases hsize : bufferSize < cmd.payloadSize.toNat
  · rw [if_pos hsize, if_neg fun h => absurd (hfits.1 h.1) (Nat.not_le.2 hsize)]
  · have hcmd : cmd.fits = true := hfits.2 (Nat.not_lt.1 hsize)
    rw [if_neg hsize]
    by_cases hroom : queue.count < queue.capacity.toNat
    · rw [if_pos hroom, if_pos ⟨hcmd, hroom⟩]
    · rw [if_neg hroom, if_neg fun h => hroom h.2]

/-- A command that is queued leaves the capacity. -/
@[simp] theorem enqueue_capacity (queue : PolycallCommandArray) (cmd : PolycallCommand) :
    (enqueue queue cmd).capacity = queue.capacity := by
  rw [enqueue_eq]
  split <;> rfl

/-- On a bounded queue, the body of the loop keeps as many as there is room for. -/
theorem enqueue_commands {queue : PolycallCommandArray} (h : queue.Bounded)
    (cmd : PolycallCommand) :
    (enqueue queue cmd).commands =
      (queue.commands ++ [cmd].filter PolycallCommand.fits).take queue.capacity.toNat := by
  have hlen : queue.commands.length ≤ queue.capacity.toNat := h
  rw [enqueue_eq]
  cases hfits : cmd.fits with
  | false =>
    rw [if_neg (by simp), List.filter_cons_of_neg (by simp [hfits]), List.filter_nil,
      List.append_nil, List.take_of_length_le hlen]
  | true =>
    rw [List.filter_cons_of_pos hfits, List.filter_nil]
    by_cases hroom : queue.count < queue.capacity.toNat
    · have hroom' : (queue.commands ++ [cmd]).length ≤ queue.capacity.toNat := by
        rw [List.length_append, List.length_singleton]
        exact hroom
      rw [if_pos ⟨rfl, hroom⟩, List.take_of_length_le hroom']
    · -- The queue is full.
      have hfull : queue.commands.length = queue.capacity.toNat :=
        Nat.le_antisymm hlen (Nat.not_lt.1 hroom)
      rw [if_neg fun h => hroom h.2, ← hfull, List.take_left]

/-- A bounded queue stays within its capacity. -/
theorem enqueue_bounded {queue : PolycallCommandArray} (h : queue.Bounded)
    (cmd : PolycallCommand) : (enqueue queue cmd).Bounded := by
  unfold PolycallCommandArray.Bounded PolycallCommandArray.count
  rw [enqueue_commands h, enqueue_capacity]
  exact List.length_take_le _ _

/-- A list cut off at a length and then extended is cut off at this length as the whole is. -/
theorem take_take_append {α : Type*} (n : ℕ) (xs ys : List α) :
    (xs.take n ++ ys).take n = (xs ++ ys).take n := by
  rcases Nat.le_total n xs.length with h | h
  · have hlen : n ≤ (xs.take n).length := by rw [List.length_take]; omega
    rw [List.take_append_of_le_length hlen, List.take_append_of_le_length h, List.take_take,
      Nat.min_self]
  · rw [List.take_of_length_le h]

/-- The loop of `batch_process` keeps the first commands that fit, up to the capacity. -/
theorem foldl_enqueue : ∀ (cmds : List PolycallCommand) (queue : PolycallCommandArray),
    queue.Bounded →
      cmds.foldl enqueue queue =
        { queue with
          commands :=
            (queue.commands ++ cmds.filter PolycallCommand.fits).take queue.capacity.toNat }
  | [], queue, h => by
    have hlen : queue.commands.length ≤ queue.capacity.toNat := h
    simp [List.take_of_length_le hlen]
  | cmd :: cmds, queue, h => by
    rw [List.foldl_cons, foldl_enqueue cmds _ (enqueue_bounded h cmd), enqueue_capacity,
      enqueue_commands h]
    congr 1
    -- What does not fit beside the first command does not fit beside all of them.
    rw [take_take_append, List.append_assoc, ← List.filter_append]
    rfl

/-! ## The queues of a context -/

/-- A queue as `batch_process` leaves it: of the capacity that it was created with, not longer than
that, and with commands that fit. -/
structure PolycallCommandArray.Tidy (queue : PolycallCommandArray) : Prop where
  capacity_eq : queue.capacity.toNat = maxCommands
  bounded : queue.Bounded
  fits : ∀ cmd ∈ queue.commands, cmd.fits = true

/-- A new queue is tidy. -/
theorem tidy_reset : resetCommandArray.Tidy :=
  ⟨rfl, Nat.zero_le _, by simp [resetCommandArray]⟩

/-- A command that is queued leaves the queue tidy. -/
theorem PolycallCommandArray.Tidy.enqueue {queue : PolycallCommandArray} (h : queue.Tidy)
    (cmd : PolycallCommand) : (enqueue queue cmd).Tidy := by
  refine ⟨?_, enqueue_bounded h.bounded cmd, fun other hother => ?_⟩
  · rw [enqueue_capacity, h.capacity_eq]
  · rw [enqueue_commands h.bounded] at hother
    rcases List.mem_append.1 (List.mem_of_mem_take hother) with hold | hnew
    · exact h.fits other hold
    · exact (List.mem_filter.1 hnew).2

/-- Commands that are queued in turn leave the queue tidy. -/
theorem PolycallCommandArray.Tidy.foldl {queue : PolycallCommandArray} (h : queue.Tidy) :
    ∀ cmds : List PolycallCommand, (cmds.foldl Micro.enqueue queue).Tidy
  | [] => h
  | cmd :: cmds => (h.enqueue cmd).foldl cmds

/-- The queue of every service is tidy. -/
def Queued (ctx : PolycallMicroContext) : Prop :=
  ∀ i, ctx.isActive i = true → (ctx.service i).commandQueue.Tidy

/-- A service rewritten with a tidy queue leaves the queues tidy. -/
theorem Queued.setService (h : Queued ctx) {service : PolycallServiceState}
    (hservice : service.commandQueue.Tidy) : Queued (ctx.setService i service) := by
  intro j hj
  rcases eq_or_ne i j with rfl | hne
  · rw [service_setService_self]
    exact hservice
  · rw [service_setService_of_ne _ hne]
    exact h j hj

/-- Removing a service leaves the queues tidy. -/
theorem Queued.clear (h : Queued ctx) : Queued (ctx.clear i) := by
  intro j hj
  obtain ⟨hj', hservice⟩ := kept_of_isActive_clear hj
  rw [hservice]
  exact h j hj'

/-- Every call on a counted table keeps the queues tidy. -/
theorem queued_step (ctx : PolycallMicroContext) (call : UInt64 × Call)
    (h : Counted ctx ∧ Queued ctx) :
    Counted (step ctx call).1 ∧ Queued (step ctx call).1 := by
  obtain ⟨hcounted, hqueued⟩ := h
  refine ⟨counted_step ctx call hcounted, ?_⟩
  obtain ⟨now, call⟩ := call
  cases call with
  | createService serviceId flags =>
    rcases createService_of_counted hcounted now serviceId flags with
      ⟨-, heq⟩ | ⟨slot, ctx', -, -, heq, -, hactive, hservice⟩
    · simp only [step, heq]
      exact hqueued
    · simp only [step, heq]
      -- The new service has an empty queue, and the other services keep theirs.
      intro j hj
      rw [hservice]
      split_ifs with hslot
      · exact tidy_reset
      · rw [hactive, decide_eq_false hslot, Bool.or_false] at hj
        exact hqueued j hj
  | destroyService serviceId =>
    rcases destroyService_cases ctx serviceId with ⟨-, heq⟩ | ⟨i, -, -, -, heq⟩
    · simp only [step, heq]
      exact hqueued
    · simp only [step, heq]
      exact hqueued.clear
  | batchProcess serviceId commands? =>
    cases commands? with
    | none => exact hqueued
    | some commands =>
      simp only [step, batchProcess]
      cases hfind : ctx.findService serviceId with
      | none => exact hqueued
      | some i => exact hqueued.setService ((hqueued i (isActive_of_findService hfind).1).foldl _)
  | updateServiceState serviceId newState =>
    simp only [step, updateServiceState]
    cases hfind : ctx.findService serviceId with
    | none => exact hqueued
    | some i => exact hqueued.setService (hqueued i (isActive_of_findService hfind).1)
  | collectGarbage =>
    -- The collection only clears slots.
    have hswept := collect_of_clear (P := Queued) (fun _ _ _ h => h.clear) now (List.finRange 32)
      ctx hqueued
    simp only [step, collectGarbage]
    generalize (List.finRange 32).foldl (collectSlot now) ctx = swept at hswept ⊢
    exact hswept

/-- In every state that is reached from an initialized context, the table is counted and the queues
are tidy. -/
theorem queued_of_run {host : InitHost} {storage : PolycallMicroContext}
    {config : Option PolycallConfig} (hinit : (init host storage config).1 = .success)
    (calls : List (UInt64 × Call)) :
    Counted (final step (init host storage config).2 calls) ∧
      Queued (final step (init host storage config).2 calls) := by
  refine (final_of_step queued_step _ calls ⟨counted_init hinit, fun i hi => ?_⟩).2
  rw [isActive_init hinit i] at hi
  exact absurd hi (by decide)

/-! ## Batches for one service -/

/-- The search reads the mask and the ids alone. -/
theorem findService_setService {service : PolycallServiceState}
    (hid : service.id = (ctx.service i).id) (serviceId : UInt32) :
    (ctx.setService i service).findService serviceId = ctx.findService serviceId := by
  unfold PolycallMicroContext.findService
  congr 1
  funext j
  rw [isActive_setService]
  rcases eq_or_ne i j with rfl | hne
  · rw [service_setService_self, hid]
  · rw [service_setService_of_ne _ hne]

/-- A batch for a service that the search finds. -/
theorem step_batchProcess {serviceId : UInt32} (hfind : ctx.findService serviceId = some i)
    (now : UInt64) (commands : PolycallCommandArray) :
    step ctx (now, .batchProcess serviceId (some commands)) =
      (ctx.setService i ((ctx.service i).processed now commands), .success) := by
  simp only [step, batchProcess, hfind]

/-- The calls of a sequence of batches for one id. -/
def batchCalls (serviceId : UInt32) (batches : List (UInt64 × PolycallCommandArray)) :
    List (UInt64 × Call) :=
  batches.map fun batch => (batch.1, .batchProcess serviceId (some batch.2))

/-- What a sequence of batches does to the table: every batch succeeds, the queue of the slot is
what was in it and then the commands that fit, in order and up to the capacity, and the other slots
are as they were. -/
structure Queues (ctx : PolycallMicroContext) (i : Slot) (serviceId : UInt32)
    (batches : List (UInt64 × PolycallCommandArray)) : Prop where
  successful : ∀ m ∈ moves step ctx (batchCalls serviceId batches), (step m.1 m.2).2 = .success
  commands_eq : ((final step ctx (batchCalls serviceId batches)).service i).commandQueue.commands =
    ((ctx.service i).commandQueue.commands ++
      (batches.flatMap fun batch => batch.2.commands).filter PolycallCommand.fits).take maxCommands
  count_le : ((final step ctx (batchCalls serviceId batches)).service i).commandQueue.count ≤
    maxCommands
  mask_eq : (final step ctx (batchCalls serviceId batches)).serviceArray.activeMask =
    ctx.serviceArray.activeMask
  others : ∀ j, j ≠ i →
    (final step ctx (batchCalls serviceId batches)).service j = ctx.service j

/-- Batches for an id go to the slot that the search finds, into its tidy queue. -/
theorem queues_of_findService {serviceId : UInt32} :
    ∀ (batches : List (UInt64 × PolycallCommandArray)) (ctx : PolycallMicroContext),
      ctx.findService serviceId = some i → (ctx.service i).commandQueue.Tidy →
        Queues ctx i serviceId batches
  | [], ctx, _, htidy => by
    have hlen : (ctx.service i).commandQueue.commands.length ≤ maxCommands := by
      rw [← htidy.capacity_eq]
      exact htidy.bounded
    refine ⟨by simp [batchCalls], ?_, hlen, rfl, fun j _ => rfl⟩
    rw [List.flatMap_nil, List.filter_nil, List.append_nil, List.take_of_length_le hlen]
    rfl
  | (now, commands) :: batches, ctx, hfind, htidy => by
    have hstep := step_batchProcess hfind now commands
    set ctx' := ctx.setService i ((ctx.service i).processed now commands) with hctx'
    have hqueue : (ctx'.service i).commandQueue =
        commands.commands.foldl enqueue (ctx.service i).commandQueue := by
      rw [hctx', service_setService_self]
      rfl
    have hfind' : ctx'.findService serviceId = some i := by
      have hid : ((ctx.service i).processed now commands).id = (ctx.service i).id := rfl
      rw [hctx', findService_setService hid, hfind]
    -- The search for the id finds the same slot again, with a tidy queue.
    have ih := queues_of_findService batches ctx' hfind' (hqueue ▸ htidy.foldl _)
    have hfinal : final step ctx (batchCalls serviceId ((now, commands) :: batches)) =
        final step ctx' (batchCalls serviceId batches) := by
      show final step (step ctx (now, .batchProcess serviceId (some commands))).1 _ = _
      rw [hstep]
      rfl
    refine ⟨?_, ?_, ?_, ?_, fun j hj => ?_⟩
    · show ∀ m ∈ (ctx, (now, .batchProcess serviceId (some commands))) ::
        moves step (step ctx (now, .batchProcess serviceId (some commands))).1
          (batchCalls serviceId batches), (step m.1 m.2).2 = .success
      rw [hstep, List.forall_mem_cons]
      exact ⟨congrArg Prod.snd hstep, ih.successful⟩
    · calc ((final step ctx (batchCalls serviceId
            ((now, commands) :: batches))).service i).commandQueue.commands
        _ = ((ctx'.service i).commandQueue.commands ++
              (batches.flatMap fun batch => batch.2.commands).filter
                PolycallCommand.fits).take maxCommands := by
          rw [hfinal, ih.commands_eq]
        _ = (((ctx.service i).commandQueue.commands ++
                commands.commands.filter PolycallCommand.fits).take maxCommands ++
              (batches.flatMap fun batch => batch.2.commands).filter
                PolycallCommand.fits).take maxCommands := by
          rw [hqueue, foldl_enqueue _ _ htidy.bounded, htidy.capacity_eq]
        _ = ((ctx.service i).commandQueue.commands ++
              (((now, commands) :: batches).flatMap fun batch => batch.2.commands).filter
                PolycallCommand.fits).take maxCommands := by
          rw [take_take_append, List.append_assoc, ← List.filter_append, List.flatMap_cons]
    · rw [hfinal]
      exact ih.count_le
    · rw [hfinal, ih.mask_eq]
      rfl
    · rw [hfinal, ih.others j hj, hctx', service_setService_of_ne _ hj.symm]

/-- The search for an id finds the first active slot that has it. -/
theorem findService_eq_some {serviceId : UInt32} :
    ctx.findService serviceId = some i ↔
      (ctx.isActive i = true ∧ (ctx.service i).id = serviceId) ∧
        ∀ j, j < i → ctx.isActive j = true → (ctx.service j).id ≠ serviceId := by
  unfold PolycallMicroContext.findService
  rw [List.find?_eq_some_iff_getElem]
  simp only [Bool.and_eq_true, decide_eq_true_eq, List.getElem_finRange, Bool.not_eq_true']
  constructor
  · rintro ⟨hi, n, hn, rfl, hbefore⟩
    refine ⟨hi, fun j hj hactive hid => ?_⟩
    have hj' := hbefore j hj
    simp [hactive, hid] at hj'
  · rintro ⟨hi, hbefore⟩
    refine ⟨hi, i, by simp, by simp, fun n hn => ?_⟩
    rw [Bool.eq_false_iff, ne_eq, Bool.and_eq_true, decide_eq_true_eq]
    rintro ⟨hactive, hid⟩
    exact hbefore _ hn hactive hid

/-- For every context that is reached from an initialized one, and every service with an id of its
own: whatever batches are processed for it, each of them succeeds, and the queue is what was in it
and then the commands that fit, in order, up to 64 commands. No other service changes. -/
theorem queue_of_batches {host : InitHost} {storage : PolycallMicroContext}
    {config : Option PolycallConfig} (hinit : (init host storage config).1 = .success)
    (calls : List (UInt64 × Call)) (i : Slot)
    (hactive : (final step (init host storage config).2 calls).isActive i = true)
    (hdistinct : ∀ j, (final step (init host storage config).2 calls).isActive j = true →
      ((final step (init host storage config).2 calls).service j).id =
        ((final step (init host storage config).2 calls).service i).id → j = i)
    (batches : List (UInt64 × PolycallCommandArray)) :
    Queues (final step (init host storage config).2 calls) i
      ((final step (init host storage config).2 calls).service i).id batches := by
  set ctx := final step (init host storage config).2 calls
  have hqueued : Queued ctx := (queued_of_run hinit calls).2
  refine queues_of_findService batches ctx ?_ (hqueued i hactive)
  refine findService_eq_some.2 ⟨⟨hactive, rfl⟩, fun j hlt hj hid => ?_⟩
  exact absurd (hdistinct j hj hid) (Fin.ne_of_lt hlt)

/-- A command of this id, with a payload of this size. -/
def blankCommand (id payloadSize : UInt32) : PolycallCommand :=
  ⟨id, 0, payloadSize, List.Vector.replicate _ 0⟩

/-- An array of two commands of which one does not fit, twice, after another service has gone. -/
theorem queue_of_batches_twice :
    Queues
      (final step (init readyHost zeroContext (some ⟨0, 1⟩)).2
        [(0, .createService 7 0), (0, .createService 8 0), (1, .destroyService 7)])
      1 8 [(2, ⟨[blankCommand 1 0, blankCommand 2 4097], 64⟩), (3, ⟨[blankCommand 3 8], 64⟩)] :=
  queue_of_batches rfl _ 1 (by decide) (by decide) _

/-! ## Whole batches -/

/-- The loop of `batch_process` from index `i` on when the array is the queue itself: it reads the
commands that it appends. -/
def enqueueOwn (queue : PolycallCommandArray) (i : ℕ) : PolycallCommandArray :=
  if h : i < queue.count then enqueueOwn (enqueue queue (queue.commands.get ⟨i, h⟩)) (i + 1)
  else queue
termination_by max queue.count queue.capacity.toNat - i
decreasing_by
  -- The queue grows in front of the index, but not beyond its capacity.
  have hle : (enqueue queue (queue.commands.get ⟨i, h⟩)).count ≤
      max queue.count queue.capacity.toNat := by
    rw [enqueue_eq]
    split_ifs with hroom
    · have hlen : (queue.commands ++ [queue.commands.get ⟨i, h⟩]).length = queue.count + 1 :=
        List.length_append
      exact le_trans (le_of_eq hlen) (le_trans hroom.2 (le_max_right _ _))
    · exact le_max_left _ _
  rw [enqueue_capacity]
  omega

/-- What the `commands` of a caller point to: an array of its own, or the queue of a slot. -/
inductive CommandSource where
  | array (commands : PolycallCommandArray)
  | queue (slot : Slot)

/-- The array that a source holds. -/
def CommandSource.commands (ctx : PolycallMicroContext) : CommandSource → PolycallCommandArray
  | .array commands => commands
  | .queue slot => (ctx.service slot).commandQueue

/-- The queue of slot `i` after the loop of `batch_process`. -/
def CommandSource.enqueueAll (ctx : PolycallMicroContext) (i : Slot) (source : CommandSource) :
    PolycallCommandArray :=
  let queue := (ctx.service i).commandQueue
  match source with
  | .array commands => commands.commands.foldl enqueue queue
  | .queue slot =>
    if slot = i then enqueueOwn queue 0
    else (ctx.service slot).commandQueue.commands.foldl enqueue queue

/-- `polycall_micro_batch_process` on any array, also one that lies in the table. -/
def batchProcessFrom (now : UInt64) (ctx : PolycallMicroContext) (serviceId : UInt32)
    (source : CommandSource) : PolycallMicroStatus × PolycallMicroContext :=
  match ctx.findService serviceId with
  | none => (.errorService, ctx)
  | some i =>
    (.success,
      ctx.setService i
        { ctx.service i with commandQueue := source.enqueueAll ctx i, lastUpdate := now })

/-- On an array of the caller, this is the function of the calls. -/
theorem batchProcessFrom_array (now : UInt64) (ctx : PolycallMicroContext) (serviceId : UInt32)
    (commands : PolycallCommandArray) :
    batchProcessFrom now ctx serviceId (.array commands) =
      batchProcess now ctx serviceId (some commands) := rfl

/-- The body of the loop only appends. -/
theorem enqueue_extends (queue : PolycallCommandArray) (cmd : PolycallCommand) :
    queue.commands <+: (enqueue queue cmd).commands := by
  rw [enqueue_eq]
  split_ifs
  · exact List.prefix_append _ _
  · exact List.prefix_rfl

/-- What was queued stays in front. -/
theorem enqueueOwn_prefix (queue : PolycallCommandArray) (i : ℕ) :
    queue.commands <+: (enqueueOwn queue i).commands := by
  fun_induction enqueueOwn queue i with
  | case1 queue i h ih => exact (enqueue_extends _ _).trans ih
  | case2 queue i h => exact List.prefix_rfl

/-- A queue that is appended to itself stays tidy. -/
theorem PolycallCommandArray.Tidy.enqueueOwn {queue : PolycallCommandArray} (h : queue.Tidy)
    (i : ℕ) : (enqueueOwn queue i).Tidy := by
  fun_induction Micro.enqueueOwn queue i with
  | case1 queue i hlt ih => exact ih (h.enqueue _)
  | case2 queue i _ => exact h

/-- A tidy queue that is at most half full is appended to itself, before whatever follows. -/
theorem enqueueOwn_append {cmds : List PolycallCommand}
    (hroom : cmds.length + cmds.length ≤ maxCommands) :
    ∀ (k n : ℕ) (queue : PolycallCommandArray), n + k = cmds.length → queue.Tidy →
      queue.commands = cmds ++ cmds.take n →
        cmds ++ cmds <+: (enqueueOwn queue n).commands
  | 0, n, queue, hn, _, hqueue => by
    -- All of the queue has been read once, and what follows only appends.
    have hwhole := enqueueOwn_prefix queue n
    rw [hqueue, List.take_of_length_le (by omega)] at hwhole
    exact hwhole
  | k + 1, n, queue, hn, htidy, hqueue => by
    have hlt : n < cmds.length := by omega
    have hcount : queue.count = cmds.length + n := by
      unfold PolycallCommandArray.count
      rw [hqueue, List.length_append, List.length_take, Nat.min_eq_left hlt.le]
    have hn' : n < queue.count := by omega
    have hcmd : queue.commands.get ⟨n, hn'⟩ = cmds[n] := by
      simp [hqueue, List.getElem_append_left hlt]
    have hfits : cmds[n].fits = true := by
      rw [← hcmd]
      exact htidy.fits _ (List.get_mem _ _)
    have hfree : queue.count < queue.capacity.toNat := by
      rw [htidy.capacity_eq]
      omega
    rw [enqueueOwn, dif_pos hn', hcmd]
    refine enqueueOwn_append hroom k (n + 1) _ (by omega) (htidy.enqueue _) ?_
    rw [enqueue_eq, if_pos ⟨hfits, hfree⟩]
    show queue.commands ++ [cmds[n]] = _
    rw [hqueue, List.append_assoc, List.take_concat_get' cmds n hlt]

/-- A list and then all of another one are in front of what is kept of the other, up to a length,
just when all of it is kept and there is room. -/
theorem append_prefix_take_filter_iff {α : Type*} {p : α → Bool} {n : ℕ} {xs ys : List α} :
    xs ++ ys <+: (xs ++ ys.filter p).take n ↔
      (∀ y ∈ ys, p y = true) ∧ xs.length + ys.length ≤ n := by
  constructor
  · -- What is kept is as long as the whole, so nothing has been filtered out or cut off.
    intro hprefix
    have hlen := hprefix.length_le
    have hkept := List.length_filter_le p ys
    rw [List.length_take, List.length_append, List.length_append] at hlen
    refine ⟨List.length_filter_eq_length_iff.1 ?_, ?_⟩ <;> omega
  · rintro ⟨hall, hroom⟩
    rw [List.filter_eq_self.2 hall, List.take_of_length_le (by rwa [List.length_append])]

/-- The array is in the queue of slot `i` as a whole, behind what was there before. -/
def Appended (ctx ctx' : PolycallMicroContext) (i : Slot) (source : CommandSource) : Prop :=
  (ctx.service i).commandQueue.commands ++ (source.commands ctx).commands <+:
    (ctx'.service i).commandQueue.commands

/-- None of the array is passed over: slot `i` is the first active one with its id, every payload
fits into the buffer, and there is room in the queue. -/
structure Accepts (ctx : PolycallMicroContext) (i : Slot) (source : CommandSource) : Prop where
  first : ∀ j, j < i → ctx.isActive j = true → (ctx.service j).id ≠ (ctx.service i).id
  fits : ∀ cmd ∈ (source.commands ctx).commands, cmd.payloadSize.toNat ≤ bufferSize
  room : (ctx.service i).commandQueue.count + (source.commands ctx).count ≤ maxCommands

/-- The loop of `batch_process` appends the whole array exactly when all of it fits and there is
room. An array that lies in the table fits, since it is a queue itself. -/
theorem enqueueAll_prefix_iff (hqueued : Queued ctx) (hi : ctx.isActive i = true)
    (source : CommandSource) :
    (ctx.service i).commandQueue.commands ++ (source.commands ctx).commands <+:
        (source.enqueueAll ctx i).commands ↔
      (∀ cmd ∈ (source.commands ctx).commands, cmd.fits = true) ∧
        (ctx.service i).commandQueue.count + (source.commands ctx).count ≤ maxCommands := by
  have htidy := hqueued i hi
  -- A loop over another array is a fold, which keeps the first commands that fit.
  have hfold : ∀ cmds : List PolycallCommand,
      (cmds.foldl enqueue (ctx.service i).commandQueue).commands =
        ((ctx.service i).commandQueue.commands ++ cmds.filter PolycallCommand.fits).take
          maxCommands := by
    intro cmds
    rw [foldl_enqueue _ _ htidy.bounded, htidy.capacity_eq]
  cases source with
  | array commands =>
    simp only [CommandSource.enqueueAll, CommandSource.commands]
    rw [hfold]
    exact append_prefix_take_filter_iff
  | queue slot =>
    simp only [CommandSource.enqueueAll, CommandSource.commands]
    by_cases hslot : slot = i
    · subst hslot
      rw [if_pos rfl]
      constructor
      · intro hprefix
        have hshort := (htidy.enqueueOwn 0).bounded
        unfold PolycallCommandArray.Bounded at hshort
        rw [(htidy.enqueueOwn 0).capacity_eq] at hshort
        refine ⟨htidy.fits, le_trans ?_ hshort⟩
        have hle := hprefix.length_le
        rwa [List.length_append] at hle
      · rintro ⟨-, hroom⟩
        exact enqueueOwn_append hroom _ 0 _ (Nat.zero_add _) htidy (by simp)
    · rw [if_neg hslot, hfold]
      exact append_prefix_take_filter_iff

/-- For every context that is reached from an initialized one, every service and every array: a
batch that is reported as successful is in the queue as a whole exactly if the array is empty or
none of it is passed over. -/
theorem batch_appended_iff {host : InitHost} {storage : PolycallMicroContext}
    {config : Option PolycallConfig} (hinit : (init host storage config).1 = .success)
    (calls : List (UInt64 × Call)) (i : Slot)
    (hactive : (final step (init host storage config).2 calls).isActive i = true)
    (now : UInt64) (source : CommandSource) :
    let ctx := final step (init host storage config).2 calls
    let r := batchProcessFrom now ctx (ctx.service i).id source
    (r.1 = .success → Appended ctx r.2 i source) ↔
      (source.commands ctx).commands = [] ∨ Accepts ctx i source := by
  intro ctx
  have hqueued : Queued ctx := (queued_of_run hinit calls).2
  have hnil : (source.commands ctx).commands = [] →
      ∀ queue : List PolycallCommand, queue ++ (source.commands ctx).commands = queue := by
    intro h queue
    rw [h, List.append_nil]
  -- The search for the id finds some slot, since the service itself is active.
  cases hfind : ctx.findService (ctx.service i).id with
  | none => exact absurd rfl (findService_eq_none.1 hfind i hactive)
  | some k =>
    obtain ⟨hk, hbefore⟩ := findService_eq_some.1 hfind
    simp only [batchProcessFrom, hfind, true_imp_iff, Appended]
    rcases eq_or_ne k i with rfl | hne
    · -- The search finds the service itself.
      rw [service_setService_self]
      refine (enqueueAll_prefix_iff hqueued hactive source).trans ⟨fun h => ?_, fun h => ?_⟩
      · exact .inr ⟨hbefore, fun cmd hcmd => of_decide_eq_true (h.1 cmd hcmd), h.2⟩
      · rcases h with hempty | haccepts
        · have htidy := hqueued k hactive
          have hcount : (source.commands ctx).count = 0 := by
            rw [PolycallCommandArray.count, hempty, List.length_nil]
          refine ⟨by simp [hempty], ?_⟩
          rw [hcount, ← htidy.capacity_eq]
          exact htidy.bounded
        · exact ⟨fun cmd hcmd => decide_eq_true (haccepts.fits cmd hcmd), haccepts.room⟩
    · -- The batch goes to another slot with the same id.
      rw [service_setService_of_ne _ hne]
      constructor
      · intro hprefix
        left
        -- Nothing is appended to this queue, so only an empty array is in it as a whole.
        have hlen := hprefix.length_le
        rw [List.length_append] at hlen
        exact List.eq_nil_of_length_eq_zero (by omega)
      · rintro (hempty | haccepts)
        · rw [hnil hempty]
        · -- A slot before this one has the id, which `Accepts` excludes.
          have hlt : k < i := by
            refine lt_of_le_of_ne (not_lt.1 fun hlt => ?_) hne
            exact hbefore i hlt hactive rfl
          exact absurd hk.2 (haccepts.first k hlt hk.1)

/-- Two commands that fit into an empty queue. -/
theorem batch_appended_iff_two :
    Appended (final step (init readyHost zeroContext (some ⟨0, 1⟩)).2 [(0, .createService 7 0)])
      (batchProcessFrom 1
        (final step (init readyHost zeroContext (some ⟨0, 1⟩)).2 [(0, .createService 7 0)]) 7
        (.array ⟨[blankCommand 1 0, blankCommand 2 8], 64⟩)).2 0
      (.array ⟨[blankCommand 1 0, blankCommand 2 8], 64⟩) :=
  (@batch_appended_iff readyHost zeroContext (some ⟨0, 1⟩) rfl [(0, .createService 7 0)] 0
    (by decide) 1 _).2 (.inr ⟨by decide, by decide, by decide⟩) rfl

/-- A batch of one command that does not fit is reported as successful. -/
theorem batch_passed_over :
    (final step (init readyHost zeroContext (some ⟨0, 1⟩)).2 [(0, .createService 7 0)]).isActive 0 =
        true ∧
      (batchProcessFrom 1
        (final step (init readyHost zeroContext (some ⟨0, 1⟩)).2 [(0, .createService 7 0)]) 7
        (.array ⟨[blankCommand 1 4097], 64⟩)).1 = .success ∧
      ¬ Appended
        (final step (init readyHost zeroContext (some ⟨0, 1⟩)).2 [(0, .createService 7 0)])
        (batchProcessFrom 1
          (final step (init readyHost zeroContext (some ⟨0, 1⟩)).2 [(0, .createService 7 0)]) 7
          (.array ⟨[blankCommand 1 4097], 64⟩)).2 0
        (.array ⟨[blankCommand 1 4097], 64⟩) := by
  refine ⟨by decide, by decide, fun h => ?_⟩
  exact absurd h.length_le (by decide)

end LibPolyCall.Micro
