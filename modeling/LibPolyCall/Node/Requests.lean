import LibPolyCall.Library.Keyed
import LibPolyCall.Library.Runs
import LibPolyCall.Node.Answers
import Mathlib.Data.List.TakeWhile

/-!
# Requests and their answers

`sendMessage` and `reset` of `ProtocolHandler.js`, over the methods of
`Node/ProtocolHandler`. A call of `sendMessage` gives a promise, which an entry of
`pendingMessages` can settle, and a timer. Here the entries are kept with the promises that they
belong to, and the calls, the messages that come in, the timers and the resets follow each other in
any order.
-/

namespace LibPolyCall.Node

open Bytes

/-- A promise that `sendMessage` has given. -/
structure Promise where
  sequence : ℕ
  outcome : Option Outcome
  /-- Its timer has not gone off. -/
  armed : Bool
deriving DecidableEq

/-- The promise of a message with this sequence number. -/
def Promise.pending (sequence : ℕ) : Promise := ⟨sequence, none, true⟩

/-- `resolve` or `reject`: a promise that is settled stays as it is. -/
def Promise.settle (outcome : Outcome) (promise : Promise) : Promise :=
  { promise with outcome := promise.outcome.or (some outcome) }

/-- A handler, with the promises that it has given; a promise is named by its place among them. -/
structure Requests where
  handler : ProtocolHandler
  /-- `pendingMessages`: a sequence number, and the promise that it settles. -/
  entries : List (ℕ × ℕ)
  promises : List Promise
deriving DecidableEq

/-- `pendingMessages` set to these entries. -/
def Requests.setEntries (requests : Requests) (entries : List (ℕ × ℕ)) : Requests :=
  { requests with
    entries
    handler := { requests.handler with pendingMessages := entries.map Prod.fst } }

/-- `sendMessage`, with the message that it emits. A call whose message cannot be built leaves no
entry and no timer. -/
def Requests.sendMessage (type : ℕ) (payload : List UInt8) (flags : ℕ) (requests : Requests) :
    Requests × List (List UInt8) :=
  match (createMessage type payload flags).call requests.handler with
  | (.error _, handler) => ({ requests with handler }, [])
  | (.ok message, handler) =>
    let sequence := readAt .little message 4 4
    let promises := requests.promises ++ [Promise.pending sequence]
    let entries := Keyed.put Prod.fst requests.entries (sequence, requests.promises.length)
    (({ requests with handler, promises }).setEntries entries, [message])

/-- The promise of an entry settled. -/
def settleEntry (entries : List (ℕ × ℕ)) (promises : List Promise) (called : ℕ × Outcome) :
    List Promise :=
  match Keyed.find Prod.fst called.1 entries with
  | some entry => promises.modify entry.2 (Promise.settle called.2)
  | none => promises

/-- `processMessage` at the time `now`, with the promises that the removed entries settle. -/
def Requests.processMessage (now : ℕ) (data : List UInt8) (requests : Requests) : Requests :=
  let handler := ((Node.processMessage now data).call requests.handler).2
  let emitted := handler.emitted.drop requests.handler.emitted.length
  { handler
    entries := requests.entries.filter fun entry => handler.pendingMessages.contains entry.1
    promises := (emitted.filterMap Emitted.settles).foldl (settleEntry requests.entries)
      requests.promises }

/-- The timer of a promise goes off: what has its sequence number is deleted from
`pendingMessages`, and the promise rejected. Nothing stops a timer, and it goes off once. -/
def Requests.goOff (place : ℕ) (requests : Requests) : Requests :=
  match requests.promises[place]? with
  | none => requests
  | some promise =>
    if promise.armed then
      let promises := requests.promises.modify place fun promise =>
        { promise.settle .timeout with armed := false }
      let entries := requests.entries.filter (·.1 ≠ promise.sequence)
      ({ requests with promises }).setEntries entries
    else requests

/-- `reset`. -/
def Requests.reset (requests : Requests) : Requests :=
  let handler := { requests.handler with
    handshakeComplete := false, authenticated := false, lastHeartbeat := none, sequence := 1 }
  ({ requests with handler }).setEntries []

/-- What can happen to a handler. -/
inductive Event where
  | sendMessage (type : ℕ) (payload : List UInt8) (flags : ℕ)
  | data (now : ℕ) (data : List UInt8)
  | timer (place : ℕ)
  | reset
deriving DecidableEq

/-- One event, with the messages that are emitted to be sent. -/
def Requests.step (requests : Requests) : Event → Requests × List (List UInt8)
  | .sendMessage type payload flags => requests.sendMessage type payload flags
  | .data now data => (requests.processMessage now data, [])
  | .timer place => (requests.goOff place, [])
  | .reset => (requests.reset, [])

namespace Requests

variable {requests : Requests}

/-- The entries belong to promises that nothing has settled. -/
structure Consistent (requests : Requests) : Prop where
  keys : requests.handler.pendingMessages = requests.entries.map Prod.fst
  nodup : (requests.entries.map Prod.fst).Nodup
  below : ∀ entry ∈ requests.entries, entry.1 < requests.handler.sequence
  waiting : ∀ entry ∈ requests.entries, requests.promises[entry.2]? = some (.pending entry.1)
  armed : ∀ promise ∈ requests.promises, promise.outcome = none → promise.armed = true

/-- What `processMessage` does to the entries and the promises, by what the message answers. -/
theorem processMessage_eq (h : requests.Consistent) (now : ℕ) (data : List UInt8)
    {called : Option (ℕ × Outcome)} (hcalled : answer requests.handler.version data = called) :
    (requests.processMessage now data).entries =
        requests.entries.filter (fun entry => !called.any (·.1 = entry.1)) ∧
      (requests.processMessage now data).promises =
        called.elim requests.promises (settleEntry requests.entries requests.promises) := by
  obtain ⟨-, -, hpending, emitted, hemitted, hsettles⟩ :=
    takes_processMessage now requests.handler data
  rw [hcalled] at hpending hsettles
  constructor
  · simp only [processMessage, hpending, h.keys]
    apply List.filter_congr
    intro entry hentry
    have hmem : entry.1 ∈ requests.entries.map Prod.fst := List.mem_map_of_mem hentry
    rw [Bool.eq_iff_iff, List.contains_iff_mem, List.mem_filter, and_iff_right hmem]
  · simp only [processMessage, hemitted, List.drop_left, hsettles, h.keys]
    cases called with
    | none => rfl
    | some c =>
      rw [Option.filter_some]
      split_ifs with hmem
      · rfl
      · -- No entry has the number, and nothing is settled.
        rw [List.contains_iff_mem] at hmem
        rw [Option.elim_some, settleEntry, Keyed.find_eq_none_iff.2 hmem]
        rfl

/-- `sendMessage` throws, and at most takes a sequence number, or adds a promise and its entry. -/
theorem sendMessage_cases (h : requests.Consistent) (type : ℕ) (payload : List UInt8)
    (flags : ℕ) :
    (∃ sequence thrown, requests.handler.sequence ≤ sequence ∧
      ((createMessage type payload flags).call requests.handler).1 = .error thrown ∧
      requests.sendMessage type payload flags =
        ({ requests with handler := { requests.handler with sequence } }, [])) ∨
    ∃ message, ((createMessage type payload flags).call requests.handler).1 = .ok message ∧
      requests.sendMessage type payload flags =
        (({ requests with
            handler := { requests.handler with sequence := requests.handler.sequence + 1 }
            promises := requests.promises ++
              [Promise.pending requests.handler.sequence] }).setEntries
          (requests.entries ++ [(requests.handler.sequence, requests.promises.length)]),
        [message]) := by
  rcases createMessage_cases requests.handler type payload flags with
    ⟨thrown, hcall⟩ | ⟨thrown, hcall⟩ | ⟨message, hcall, hsequence⟩
  · exact .inl ⟨_, thrown, le_refl _, by rw [hcall], by rw [sendMessage, hcall]⟩
  · exact .inl ⟨_, thrown, Nat.le_succ _, by rw [hcall], by rw [sendMessage, hcall]⟩
  · have hnew : requests.handler.sequence ∉ requests.entries.map Prod.fst := by
      rintro hmem
      obtain ⟨entry, hentry, heq⟩ := List.mem_map.1 hmem
      exact absurd heq (Nat.ne_of_lt (h.below entry hentry))
    refine .inr ⟨message, by rw [hcall], ?_⟩
    rw [sendMessage, hcall]
    simp only [hsequence]
    rw [Keyed.put_of_notMem hnew]

/-! ## Every state -/

/-- `sendMessage` keeps the entries consistent. -/
theorem consistent_sendMessage (h : requests.Consistent) (type : ℕ) (payload : List UInt8)
    (flags : ℕ) : (requests.sendMessage type payload flags).1.Consistent := by
  rcases sendMessage_cases h type payload flags with ⟨_, _, hle, _, heq⟩ | ⟨_, _, heq⟩
  · rw [heq]
    exact ⟨h.keys, h.nodup, fun entry hentry => lt_of_lt_of_le (h.below entry hentry) hle,
      h.waiting, h.armed⟩
  · rw [heq]
    refine ⟨rfl, ?_, ?_, ?_, ?_⟩
    · rw [setEntries, List.map_append, List.map_singleton]
      refine h.nodup.append (List.nodup_singleton _) (List.disjoint_singleton.2 ?_)
      rintro hmem
      obtain ⟨entry, hentry, heq⟩ := List.mem_map.1 hmem
      exact absurd heq (Nat.ne_of_lt (h.below entry hentry))
    · intro entry hentry
      rcases List.mem_append.1 hentry with hentry | hentry
      · exact lt_trans (h.below entry hentry) (Nat.lt_succ_self _)
      · rw [List.mem_singleton.1 hentry]
        exact Nat.lt_succ_self _
    · intro entry hentry
      rcases List.mem_append.1 hentry with hentry | hentry
      · have hwaiting := h.waiting entry hentry
        have hlt := (List.getElem?_eq_some_iff.1 hwaiting).1
        exact (List.getElem?_append_left hlt).trans hwaiting
      · rw [List.mem_singleton.1 hentry]
        exact List.getElem?_concat_length
    · intro promise hpromise hnone
      rcases List.mem_append.1 hpromise with hpromise | hpromise
      · exact h.armed promise hpromise hnone
      · rw [List.mem_singleton.1 hpromise]
        rfl

/-- Entries are removed, and the promises of the others stay as they are. -/
theorem Consistent.shrink (h : requests.Consistent) {after : Requests} {keep : ℕ × ℕ → Bool}
    (hentries : after.entries = requests.entries.filter keep)
    (hkeys : after.handler.pendingMessages = after.entries.map Prod.fst)
    (hsequence : requests.handler.sequence ≤ after.handler.sequence)
    (hkept : ∀ entry ∈ requests.entries, keep entry = true →
      after.promises[entry.2]? = requests.promises[entry.2]?)
    (harmed : ∀ promise ∈ after.promises, promise.outcome = none → promise.armed = true) :
    after.Consistent := by
  refine ⟨hkeys, ?_, ?_, ?_, harmed⟩
  · rw [hentries]
    exact h.nodup.sublist (List.filter_sublist.map Prod.fst)
  · rw [hentries]
    exact fun entry hentry =>
      lt_of_lt_of_le (h.below entry (List.mem_of_mem_filter hentry)) hsequence
  · rw [hentries]
    intro entry hentry
    obtain ⟨hmem, hkeep⟩ := List.mem_filter.1 hentry
    rw [hkept entry hmem hkeep]
    exact h.waiting entry hmem

/-- Promises with different sequence numbers are at different places. -/
theorem Consistent.place_ne (h : requests.Consistent) {entry : ℕ × ℕ} {place : ℕ}
    {promise : Promise} (hentry : entry ∈ requests.entries)
    (hplace : requests.promises[place]? = some promise) (hne : entry.1 ≠ promise.sequence) :
    place ≠ entry.2 := by
  rintro rfl
  rw [h.waiting entry hentry, Option.some_inj] at hplace
  exact hne (congrArg Promise.sequence hplace)

/-- A promise that is settled has an outcome. -/
theorem settle_ne_none (outcome : Outcome) (promise : Promise) :
    (promise.settle outcome).outcome ≠ none := by
  cases h : promise.outcome <;> simp [Promise.settle, h]

/-- Settling a promise leaves none unsettled whose timer has gone off. -/
theorem armed_modify {promises : List Promise}
    (h : ∀ promise ∈ promises, promise.outcome = none → promise.armed = true) (place : ℕ)
    {settled : Promise → Promise} (hsettled : ∀ promise, (settled promise).outcome ≠ none) :
    ∀ promise ∈ promises.modify place settled, promise.outcome = none → promise.armed = true := by
  intro promise hpromise hnone
  obtain ⟨i, hi⟩ := List.mem_iff_getElem?.1 hpromise
  rw [List.getElem?_modify] at hi
  obtain ⟨before, hbefore, heq⟩ := Option.map_eq_some_iff.1 hi
  split_ifs at heq with hplace
  · exact absurd hnone (heq ▸ hsettled before)
  · exact h promise (heq ▸ List.mem_of_getElem? hbefore) hnone

/-- The promise of the entry with the number is settled, and no other. -/
theorem getElem?_settleEntry (h : requests.Consistent) (called : ℕ × Outcome) {place : ℕ}
    {promise : Promise} (hplace : requests.promises[place]? = some promise) :
    (settleEntry requests.entries requests.promises called)[place]? =
      some (if (called.1, place) ∈ requests.entries then promise.settle called.2 else promise) := by
  unfold settleEntry
  cases hfind : Keyed.find Prod.fst called.1 requests.entries with
  | none =>
    have hnone := Keyed.find_eq_none_iff.1 hfind
    have hmem : (called.1, place) ∉ requests.entries := fun hmem =>
      hnone (List.mem_map_of_mem (f := Prod.fst) hmem)
    rw [if_neg hmem]
    exact hplace
  | some entry =>
    have hentry := hfind
    rw [Keyed.find_eq_some_iff h.nodup] at hentry
    obtain ⟨hmem, hkey⟩ := hentry
    have hiff : (called.1, place) ∈ requests.entries ↔ entry.2 = place := by
      constructor
      · intro hother
        have := (Keyed.find_eq_some_iff h.nodup).2 ⟨hother, rfl⟩
        rw [hfind, Option.some_inj] at this
        exact congrArg Prod.snd this
      · rintro rfl
        exact hkey ▸ hmem
    show (requests.promises.modify entry.2 _)[place]? = _
    rw [List.getElem?_modify, hplace, Option.map_eq_map, Option.map_some]
    by_cases heq : entry.2 = place
    · rw [if_pos heq, if_pos (hiff.2 heq)]
    · rw [if_neg heq, if_neg (hiff.not.2 heq)]

/-- `processMessage` keeps the entries consistent. -/
theorem consistent_processMessage (h : requests.Consistent) (now : ℕ) (data : List UInt8) :
    (requests.processMessage now data).Consistent := by
  obtain ⟨hentries, hpromises⟩ := processMessage_eq h now data rfl
  have htakes := takes_processMessage now requests.handler data
  refine h.shrink hentries ?_ htakes.sequence ?_ ?_
  · rw [hentries]
    show ((Node.processMessage now data).call requests.handler).2.pendingMessages = _
    rw [htakes.pending, h.keys, List.filter_map]
    rfl
  · intro entry hentry hkeep
    rw [hpromises, h.waiting entry hentry]
    cases hcalled : answer requests.handler.version data with
    | none => exact h.waiting entry hentry
    | some called =>
      rw [Option.elim_some, getElem?_settleEntry h called (h.waiting entry hentry), if_neg]
      intro hmem
      have hne : called.1 ≠ entry.1 := by simpa [hcalled] using hkeep
      exact h.place_ne hmem (h.waiting entry hentry) hne rfl
  · rw [hpromises]
    cases answer requests.handler.version data with
    | none => exact h.armed
    | some called =>
      rw [Option.elim_some, settleEntry]
      split
      · exact armed_modify h.armed _ (settle_ne_none called.2)
      · exact h.armed

/-- A timer that goes off keeps the entries consistent. -/
theorem consistent_goOff (h : requests.Consistent) (place : ℕ) :
    (requests.goOff place).Consistent := by
  unfold goOff
  split
  · exact h
  · rename_i promise hplace
    split_ifs with harmed
    · refine h.shrink rfl rfl (le_refl _) (fun entry hentry hkeep => ?_)
        (armed_modify h.armed place fun promise => settle_ne_none .timeout promise)
      have hne : place ≠ entry.2 := h.place_ne hentry hplace (by simpa using hkeep)
      exact List.getElem?_modify_ne _ _ hne
    · exact h

/-- Every event keeps the entries consistent. -/
theorem consistent_step (h : requests.Consistent) (event : Event) :
    (requests.step event).1.Consistent := by
  cases event with
  | sendMessage type payload flags => exact consistent_sendMessage h type payload flags
  | data now data => exact consistent_processMessage h now data
  | timer place => exact consistent_goOff h place
  | reset => exact ⟨rfl, List.nodup_nil, by simp [step, reset, setEntries],
      by simp [step, reset, setEntries], h.armed⟩

/-! ## Promises one by one -/

/-- What an event settles a promise with that waits for an answer with a sequence number, on a
handler of a version: the answer, or its timer. -/
def settledBy (version place sequence : ℕ) : Event → Option Outcome
  | .data _ data =>
    (answer version data).bind fun called => if called.1 = sequence then some called.2 else none
  | .timer other => if other = place then some .timeout else none
  | _ => none

/-- An event takes the entry of a promise away without settling it: a reset, or the timer of another
promise with the same sequence number. -/
def strands (requests : Requests) (place sequence : ℕ) : Event → Bool
  | .reset => true
  | .timer other => other ≠ place && requests.promises[other]?.any fun promise =>
      promise.armed && promise.sequence = sequence
  | _ => false

/-- The promise at a place has this sequence number and outcome. -/
def HasOutcome (requests : Requests) (place sequence : ℕ) (outcome : Option Outcome) : Prop :=
  ∃ promise, requests.promises[place]? = some promise ∧ promise.sequence = sequence ∧
    promise.outcome = outcome

variable {place sequence : ℕ} {promise : Promise} {outcome : Outcome}

/-- What a message that comes in leaves of a promise. -/
theorem promise_data (h : requests.Consistent) (hplace : requests.promises[place]? = some promise)
    (now : ℕ) (data : List UInt8) :
    (requests.processMessage now data).promises[place]? = some
      ((answer requests.handler.version data).elim promise fun called =>
        if (called.1, place) ∈ requests.entries then promise.settle called.2 else promise) := by
  rw [(processMessage_eq h now data rfl).2]
  cases answer requests.handler.version data with
  | none => exact hplace
  | some called => exact getElem?_settleEntry h called hplace

/-- What a timer leaves of a promise. -/
theorem promise_timer (hplace : requests.promises[place]? = some promise) (other : ℕ) :
    (requests.goOff other).promises[place]? = some
      (if other = place ∧ promise.armed = true then { promise.settle .timeout with armed := false }
      else promise) := by
  unfold goOff
  split
  · rename_i hnone
    rw [if_neg (by rintro ⟨rfl, -⟩; rw [hplace] at hnone; cases hnone)]
    exact hplace
  · rename_i found hfound
    split_ifs with harmed heq heq
    · obtain ⟨rfl, -⟩ := heq
      rw [setEntries, List.getElem?_modify_eq, hplace]
      rfl
    · have hne : other ≠ place := by
        rintro rfl
        rw [hplace, Option.some_inj] at hfound
        exact heq ⟨rfl, hfound ▸ harmed⟩
      rw [setEntries, List.getElem?_modify_ne _ _ hne, hplace]
    · obtain ⟨rfl, hpromise⟩ := heq
      rw [hplace, Option.some_inj] at hfound
      exact absurd (hfound ▸ hpromise) harmed
    · exact hplace

/-- A call of `sendMessage` leaves the promises that there are as they are. -/
theorem promise_sendMessage (h : requests.Consistent)
    (hplace : requests.promises[place]? = some promise) (type : ℕ) (payload : List UInt8)
    (flags : ℕ) : (requests.sendMessage type payload flags).1.promises[place]? = some promise := by
  rcases sendMessage_cases h type payload flags with ⟨_, _, _, _, heq⟩ | ⟨_, _, heq⟩
  · rw [heq]
    exact hplace
  · rw [heq]
    exact (List.getElem?_append_left (List.getElem?_eq_some_iff.1 hplace).1).trans hplace

/-- A promise that is settled stays as it is. -/
theorem settled_step (h : requests.Consistent)
    (hplace : requests.HasOutcome place sequence (some outcome)) (event : Event) :
    (requests.step event).1.HasOutcome place sequence (some outcome) := by
  obtain ⟨promise, hpromise, hsequence, houtcome⟩ := hplace
  have hsettle : ∀ other, (promise.settle other).outcome = some outcome := fun other => by
    rw [Promise.settle, houtcome, Option.some_or]
  cases event with
  | sendMessage type payload flags =>
    exact ⟨promise, promise_sendMessage h hpromise type payload flags, hsequence, houtcome⟩
  | data now data =>
    refine ⟨_, promise_data h hpromise now data, ?_⟩
    cases answer requests.handler.version data with
    | none => exact ⟨hsequence, houtcome⟩
    | some called =>
      rw [Option.elim_some]
      split_ifs
      · exact ⟨hsequence, hsettle _⟩
      · exact ⟨hsequence, houtcome⟩
  | timer other =>
    refine ⟨_, promise_timer hpromise other, ?_, ?_⟩
    · split_ifs <;> exact hsequence
    · split_ifs
      · exact hsettle _
      · exact houtcome
  | reset => exact ⟨promise, hpromise, hsequence, houtcome⟩

/-- An event makes no entry but that of a new promise. -/
theorem mem_entries_step (h : requests.Consistent) {entry : ℕ × ℕ} (event : Event)
    (hentry : entry ∈ (requests.step event).1.entries) :
    entry ∈ requests.entries ∨ entry.2 = requests.promises.length := by
  cases event with
  | sendMessage type payload flags =>
    rcases sendMessage_cases h type payload flags with ⟨_, _, _, _, heq⟩ | ⟨_, _, heq⟩
    · rw [step, heq] at hentry
      exact .inl hentry
    · rw [step, heq] at hentry
      refine (List.mem_append.1 hentry).imp_right fun hnew => ?_
      rw [List.mem_singleton.1 hnew]
  | data now data =>
    rw [step, (processMessage_eq h now data rfl).1] at hentry
    exact .inl (List.mem_of_mem_filter hentry)
  | timer other =>
    simp only [step, goOff] at hentry
    split at hentry
    · exact .inl hentry
    · split_ifs at hentry
      · exact .inl (List.mem_of_mem_filter hentry)
      · exact .inl hentry
  | reset => cases hentry

/-- A promise without an entry is settled by its timer, and by nothing else. -/
theorem adrift_step (h : requests.Consistent) (hplace : requests.HasOutcome place sequence none)
    (hentry : (sequence, place) ∉ requests.entries) (event : Event) :
    if event = .timer place then
      (requests.step event).1.HasOutcome place sequence (some .timeout)
    else (requests.step event).1.HasOutcome place sequence none ∧
      (sequence, place) ∉ (requests.step event).1.entries := by
  obtain ⟨promise, hpromise, rfl, houtcome⟩ := hplace
  have hlt := (List.getElem?_eq_some_iff.1 hpromise).1
  have harmed := h.armed promise (List.mem_of_getElem? hpromise) houtcome
  have hgone : (promise.sequence, place) ∉ (requests.step event).1.entries := fun hmem =>
    (mem_entries_step h event hmem).elim hentry (Nat.ne_of_lt hlt)
  have hsettle : (promise.settle .timeout).outcome = some .timeout := by
    rw [Promise.settle, houtcome, Option.none_or]
  split_ifs with hevent
  · subst hevent
    refine ⟨_, promise_timer hpromise place, ?_⟩
    rw [if_pos ⟨rfl, harmed⟩]
    exact ⟨rfl, hsettle⟩
  · refine ⟨?_, hgone⟩
    cases event with
    | sendMessage type payload flags =>
      exact ⟨promise, promise_sendMessage h hpromise type payload flags, rfl, houtcome⟩
    | data now data =>
      refine ⟨_, promise_data h hpromise now data, ?_⟩
      cases hcalled : answer requests.handler.version data with
      | none => exact ⟨rfl, houtcome⟩
      | some called =>
        -- Where the promise has no entry, no other number has it.
        have hno : (called.1, place) ∉ requests.entries := fun hmem => by
          have hpending := h.waiting _ hmem
          rw [hpromise, Option.some_inj] at hpending
          exact hentry (hpending ▸ hmem)
        rw [Option.elim_some, if_neg hno]
        exact ⟨rfl, houtcome⟩
    | timer other =>
      refine ⟨_, promise_timer hpromise other, ?_⟩
      rw [if_neg (fun hown => hevent (congrArg Event.timer hown.1))]
      exact ⟨rfl, houtcome⟩
    | reset => exact ⟨promise, hpromise, rfl, houtcome⟩

/-- A promise with an entry is settled by an answer to its message and by its timer, and loses its
entry to what strands it. -/
theorem waiting_step (h : requests.Consistent) (hentry : (sequence, place) ∈ requests.entries)
    (event : Event) :
    if requests.strands place sequence event then
      (requests.step event).1.HasOutcome place sequence none ∧
        (sequence, place) ∉ (requests.step event).1.entries ∧ event ≠ .timer place
    else
      match settledBy requests.handler.version place sequence event with
      | some outcome => (requests.step event).1.HasOutcome place sequence (some outcome)
      | none => (sequence, place) ∈ (requests.step event).1.entries := by
  have hpromise := h.waiting _ hentry
  have hlt := (List.getElem?_eq_some_iff.1 hpromise).1
  cases event with
  | sendMessage type payload flags =>
    rw [if_neg (by simp [strands])]
    rcases sendMessage_cases h type payload flags with ⟨_, _, _, _, heq⟩ | ⟨_, _, heq⟩
    · rw [step, heq]
      exact hentry
    · rw [step, heq]
      exact List.mem_append_left _ hentry
  | data now data =>
    rw [if_neg (by simp [strands])]
    have hdata := promise_data h hpromise now data
    -- What comes in settles the promise with its sequence number, and takes out its entry.
    obtain ⟨hentries, -⟩ := processMessage_eq h now data rfl
    rw [settledBy, step]
    cases hcalled : answer requests.handler.version data with
    | none =>
      rw [hcalled] at hentries
      rw [Option.bind_none, hentries]
      exact List.mem_filter.2 ⟨hentry, rfl⟩
    | some called =>
      rw [hcalled] at hentries hdata
      rw [Option.bind_some]
      split_ifs with hnumber
      · -- It answers this message.
        rw [Option.elim_some, hnumber, if_pos hentry] at hdata
        exact ⟨_, hdata, rfl, rfl⟩
      · rw [hentries]
        exact List.mem_filter.2 ⟨hentry, by simpa using hnumber⟩
  | timer other =>
    have htimer := promise_timer hpromise other
    -- The timer is the promise's own, or the one of another promise.
    by_cases hown : other = place
    · rw [if_neg (by simp [strands, hown]), settledBy, if_pos hown]
      rw [if_pos ⟨hown, rfl⟩] at htimer
      exact ⟨_, htimer, rfl, rfl⟩
    · rw [if_neg fun h => hown h.1] at htimer
      rw [settledBy, if_neg hown, step]
      cases hfound : requests.promises[other]? with
      | none =>
        rw [if_neg (by simp [strands, hfound]), goOff, hfound]
        exact hentry
      | some found =>
        -- A timer that is still armed takes out the entry with its sequence number.
        by_cases harmed : found.armed = true
        · have hentries : (requests.goOff other).entries =
              requests.entries.filter (·.1 ≠ found.sequence) := by
            rw [goOff, hfound]
            exact congrArg entries (if_pos harmed)
          rw [hentries, List.mem_filter]
          -- Another promise with the same number strands this one.
          by_cases hnumber : found.sequence = sequence
          · rw [if_pos (by simp [strands, hfound, hown, harmed, hnumber])]
            exact ⟨⟨_, htimer, rfl, rfl⟩, fun hmem => of_decide_eq_true hmem.2 hnumber.symm,
              by simpa using hown⟩
          · rw [if_neg (by simp [strands, hfound, hnumber])]
            exact ⟨hentry, decide_eq_true (Ne.symm hnumber)⟩
        · have hsame : requests.goOff other = requests := by
            rw [goOff, hfound]
            exact if_neg harmed
          rw [if_neg (by simp [strands, hfound, harmed]), hsame]
          exact hentry
  | reset =>
    rw [if_pos (by simp [strands])]
    exact ⟨⟨_, hpromise, rfl, rfl⟩, List.not_mem_nil, by simp⟩

/-- A promise stays at its place, with its sequence number. -/
theorem hasOutcome_step (h : requests.Consistent) {before : Option Outcome}
    (hplace : requests.HasOutcome place sequence before) (event : Event) :
    ∃ after, (requests.step event).1.HasOutcome place sequence after := by
  cases before with
  | some outcome => exact ⟨_, settled_step h hplace event⟩
  | none =>
    by_cases hentry : (sequence, place) ∈ requests.entries
    · have hstep := waiting_step h hentry event
      split_ifs at hstep
      · exact ⟨_, hstep.1⟩
      · split at hstep
        · exact ⟨_, hstep⟩
        · exact ⟨_, _, (consistent_step h event).waiting _ hstep, rfl, rfl⟩
    · have hstep := adrift_step h hplace hentry event
      split_ifs at hstep
      · exact ⟨_, hstep⟩
      · exact ⟨_, hstep.1⟩

/-- No event changes the version of the handler. -/
theorem version_step (h : requests.Consistent) (event : Event) :
    (requests.step event).1.handler.version = requests.handler.version := by
  cases event with
  | sendMessage type payload flags =>
    rcases sendMessage_cases h type payload flags with ⟨_, _, _, _, heq⟩ | ⟨_, _, heq⟩
    · rw [step, heq]
    · rw [step, heq]
      rfl
  | data now data => exact (takes_processMessage now requests.handler data).version
  | timer other =>
    simp only [step, goOff]
    split
    · rfl
    · split_ifs <;> rfl
  | reset => rfl

/-! ## Runs -/

/-- A promise that is settled stays as it is along a run. -/
theorem settled_run (h : requests.Consistent)
    (hplace : requests.HasOutcome place sequence (some outcome)) (events : List Event) :
    (Runs.final step requests events).HasOutcome place sequence (some outcome) := by
  induction events generalizing requests with
  | nil => exact hplace
  | cons event events ih => exact ih (consistent_step h event) (settled_step h hplace event)

/-- A promise without an entry is settled along a run if its timer goes off. -/
theorem adrift_run (h : requests.Consistent) (hplace : requests.HasOutcome place sequence none)
    (hentry : (sequence, place) ∉ requests.entries) (events : List Event) :
    (Runs.final step requests events).HasOutcome place sequence
      (if .timer place ∈ events then some .timeout else none) := by
  induction events generalizing requests with
  | nil => exact hplace
  | cons event events ih =>
    have hstep := adrift_step h hplace hentry event
    have hnext := consistent_step h event
    rw [Runs.final_cons]
    split_ifs at hstep with hevent
    · rw [if_pos (hevent ▸ List.mem_cons_self)]
      exact settled_run hnext hstep events
    · have hmem : .timer place ∈ event :: events ↔ .timer place ∈ events := by
        rw [List.mem_cons, or_iff_right (Ne.symm hevent)]
      simp only [hmem]
      exact ih hnext hstep.1 hstep.2

/-- A promise with an entry is settled by the first answer to its message, or its timer, before
anything strands it, and afterwards by its timer. -/
theorem waiting_run (h : requests.Consistent) (hentry : (sequence, place) ∈ requests.entries)
    (events : List Event) :
    (Runs.final step requests events).HasOutcome place sequence
      ((((Runs.moves step requests events).takeWhile fun move =>
          !move.1.strands place sequence move.2).findSome? fun move =>
            settledBy requests.handler.version place sequence move.2).or
        (if .timer place ∈ events then some .timeout else none)) := by
  induction events generalizing requests with
  | nil => exact ⟨_, h.waiting _ hentry, rfl, rfl⟩
  | cons event events ih =>
    have hstep := waiting_step h hentry event
    have hnext := consistent_step h event
    rw [Runs.final_cons, Runs.moves_cons]
    split_ifs at hstep with hstrands
    · obtain ⟨hplace, hgone, hevent⟩ := hstep
      have hmem : .timer place ∈ event :: events ↔ .timer place ∈ events := by
        rw [List.mem_cons, or_iff_right (Ne.symm hevent)]
      rw [List.takeWhile_cons_of_neg (by simp [hstrands]), List.findSome?_nil, Option.none_or]
      simp only [hmem]
      exact adrift_run hnext hplace hgone events
    · rw [List.takeWhile_cons_of_pos (by simp [hstrands]), List.findSome?_cons]
      cases hsettled : settledBy requests.handler.version place sequence event with
      | some outcome =>
        rw [hsettled] at hstep
        exact settled_run hnext hstep events
      | none =>
        rw [hsettled] at hstep
        have hevent : event ≠ .timer place := by
          rintro rfl
          simp [settledBy] at hsettled
        have hmem : .timer place ∈ event :: events ↔ .timer place ∈ events := by
          rw [List.mem_cons, or_iff_right (Ne.symm hevent)]
        simp only [hmem, ← version_step h event]
        exact ih hnext hstep

/-! ## Runs without a reset -/

/-- Promises have sequence numbers of their own, which the handler has counted past. -/
structure Distinct (requests : Requests) : Prop where
  nodup : (requests.promises.map Promise.sequence).Nodup
  below : ∀ sequence ∈ requests.promises.map Promise.sequence, sequence < requests.handler.sequence

/-- Settling a promise leaves the sequence numbers. -/
theorem map_sequence_modify (promises : List Promise) (place : ℕ) (settled : Promise → Promise)
    (hsettled : ∀ promise, (settled promise).sequence = promise.sequence) :
    (promises.modify place settled).map Promise.sequence = promises.map Promise.sequence := by
  apply List.ext_getElem?
  intro i
  rw [List.getElem?_map, List.getElem?_map, List.getElem?_modify, Option.map_eq_map,
    Option.map_map]
  congr 1
  funext promise
  show (if place = i then settled promise else promise).sequence = _
  split_ifs
  · exact hsettled promise
  · rfl

/-- Every event but a reset keeps the sequence numbers distinct. -/
theorem distinct_step (h : requests.Consistent) (hdistinct : requests.Distinct) (event : Event)
    (hreset : event ≠ .reset) : (requests.step event).1.Distinct := by
  cases event with
  | sendMessage type payload flags =>
    rcases sendMessage_cases h type payload flags with ⟨_, _, hle, _, heq⟩ | ⟨_, _, heq⟩
    · rw [step, heq]
      exact ⟨hdistinct.nodup, fun sequence hmem => lt_of_lt_of_le (hdistinct.below _ hmem) hle⟩
    · rw [step, heq]
      -- A message that is sent takes the next number, which is above all others.
      have hmap : (requests.promises ++ [Promise.pending requests.handler.sequence]).map
          Promise.sequence =
          requests.promises.map Promise.sequence ++ [requests.handler.sequence] := by
        rw [List.map_append]
        rfl
      constructor
      · refine hmap ▸ hdistinct.nodup.append (List.nodup_singleton _) ?_
        exact List.disjoint_singleton.2 fun hmem => lt_irrefl _ (hdistinct.below _ hmem)
      · intro sequence hmem
        rcases List.mem_append.1 (hmap ▸ hmem) with hmem | hmem
        · exact lt_trans (hdistinct.below _ hmem) (Nat.lt_succ_self _)
        · rw [List.mem_singleton.1 hmem]
          exact Nat.lt_succ_self _
  | data now data =>
    -- What comes in settles promises and leaves their numbers.
    have htakes := takes_processMessage now requests.handler data
    have hmap : (requests.processMessage now data).promises.map Promise.sequence =
        requests.promises.map Promise.sequence := by
      rw [(processMessage_eq h now data rfl).2]
      cases answer requests.handler.version data with
      | none => rfl
      | some called =>
        rw [Option.elim_some, settleEntry]
        split
        · exact map_sequence_modify _ _ _ fun _ => rfl
        · rfl
    rw [step]
    refine ⟨hmap ▸ hdistinct.nodup, fun sequence hmem => ?_⟩
    exact lt_of_lt_of_le (hdistinct.below _ (hmap ▸ hmem)) htakes.sequence
  | timer other =>
    simp only [step, goOff]
    split
    · exact hdistinct
    · split_ifs
      · have hmap := map_sequence_modify requests.promises other
          (fun promise => { promise.settle .timeout with armed := false }) fun _ => rfl
        exact ⟨hmap ▸ hdistinct.nodup, fun sequence hmem => hdistinct.below _ (hmap ▸ hmem)⟩
      · exact hdistinct
  | reset => exact absurd rfl hreset

/-- While the sequence numbers are distinct, only a reset strands a promise. -/
theorem Distinct.strands (hdistinct : requests.Distinct)
    (hplace : requests.promises[place]? = some promise) {event : Event} (hreset : event ≠ .reset) :
    requests.strands place promise.sequence event = false := by
  cases event with
  | timer other =>
    rw [Requests.strands, Bool.and_eq_false_iff]
    by_cases hother : other = place
    · exact .inl (by simpa using hother)
    · refine .inr ?_
      rw [← Bool.not_eq_true, Option.any_eq_true]
      rintro ⟨found, hfound, hboth⟩
      have hsequence : found.sequence = promise.sequence :=
        of_decide_eq_true (Bool.and_eq_true_iff.1 hboth).2
      have hlt : other < (requests.promises.map Promise.sequence).length := by
        rw [List.length_map]
        exact (List.getElem?_eq_some_iff.1 hfound).1
      apply hother
      apply (List.getElem?_inj hlt hdistinct.nodup).1
      rw [List.getElem?_map, List.getElem?_map, hfound, hplace, Option.map_some, Option.map_some,
        hsequence]
  | reset => exact absurd rfl hreset
  | _ => rfl

/-- Along a run without a reset nothing strands a promise, and the first event that settles it does
so. -/
theorem unstranded_run (h : requests.Consistent) (hdistinct : requests.Distinct)
    (hentry : (sequence, place) ∈ requests.entries) {events : List Event}
    (hreset : .reset ∉ events) :
    (Runs.final step requests events).HasOutcome place sequence
      (events.findSome? (settledBy requests.handler.version place sequence)) := by
  have hrun := waiting_run h hentry events
  -- No step of the run strands the promise.
  obtain ⟨hmoves, -⟩ := Runs.moves_of_step
    (P := fun state : Requests => state.Consistent ∧ state.Distinct ∧
      ∃ outcome, state.HasOutcome place sequence outcome)
    (C := fun _ event => event ≠ .reset)
    (fun _ event ⟨hconsistent, hdistinct, _, hplace⟩ hevent => ⟨consistent_step hconsistent event,
      distinct_step hconsistent hdistinct event hevent, hasOutcome_step hconsistent hplace event⟩)
    requests events ⟨h, hdistinct, _, _, h.waiting _ hentry, rfl, rfl⟩
    (fun move hmove heq => hreset (heq ▸ Runs.snd_mem_of_mem_moves hmove))
  have hwhole : (Runs.moves step requests events).takeWhile
      (fun move => !move.1.strands place sequence move.2) = Runs.moves step requests events := by
    rw [List.takeWhile_eq_self_iff]
    intro move hmove
    obtain ⟨-, hstate, outcome, promise, hplace, rfl, -⟩ := hmoves move hmove
    rw [hstate.strands hplace fun heq => hreset (heq ▸ Runs.snd_mem_of_mem_moves hmove)]
    rfl
  have hevents : (Runs.moves step requests events).findSome?
      (fun move => settledBy requests.handler.version place sequence move.2) =
        events.findSome? (settledBy requests.handler.version place sequence) := by
    conv_rhs => rw [← Runs.map_snd_moves step requests events]
    rw [List.findSome?_map]
    rfl
  rw [hwhole, hevents] at hrun
  cases hsome : events.findSome? (settledBy requests.handler.version place sequence) with
  | some outcome => rwa [hsome] at hrun
  | none =>
    -- Its timer has not gone off either.
    have htimer : .timer place ∉ events := fun hmem => by
      have := List.findSome?_eq_none_iff.1 hsome _ hmem
      simp [settledBy] at this
    rwa [hsome, if_neg htimer] at hrun

end Requests

open Requests

/-- A handler of a version that has given no promise yet. -/
def newRequests (version : ℕ) : Requests := ⟨{ newHandler with version }, [], []⟩

/-- A new handler is consistent. -/
theorem consistent_newRequests (version : ℕ) : (newRequests version).Consistent :=
  ⟨rfl, List.nodup_nil, by simp [newRequests], by simp [newRequests], by simp [newRequests]⟩

/-- What a run of a new handler keeps. -/
theorem consistent_run (version : ℕ) (events : List Event) :
    (Runs.final step (newRequests version) events).Consistent ∧
      (Runs.final step (newRequests version) events).handler.version = version :=
  (Runs.final_of_step
    (P := fun requests : Requests => requests.Consistent ∧ requests.handler.version = version)
    (fun _ event h => ⟨consistent_step h.1 event, (version_step h.1 event).trans h.2⟩) _ events
    ⟨consistent_newRequests version, rfl⟩).2

/-- In a run without a reset the promises have sequence numbers of their own. -/
theorem distinct_run (version : ℕ) {events : List Event} (hreset : .reset ∉ events) :
    (Runs.final step (newRequests version) events).Distinct :=
  (Runs.moves_of_step (P := fun requests : Requests => requests.Consistent ∧ requests.Distinct)
    (C := fun _ event => event ≠ .reset)
    (fun _ event h hevent => ⟨consistent_step h.1 event, distinct_step h.1 h.2 event hevent⟩) _
    events ⟨consistent_newRequests version, List.nodup_nil, by simp [newRequests]⟩
    fun _ hmove heq => hreset (heq ▸ Runs.snd_mem_of_mem_moves hmove)).2.2

/-- A call of `sendMessage` whose message can be built gives a promise with an entry. -/
theorem sent_entry {requests : Requests} (h : requests.Consistent) {type flags : ℕ}
    {payload message : List UInt8}
    (hsent : ((createMessage type payload flags).call requests.handler).1 = .ok message) :
    (requests.handler.sequence, requests.promises.length) ∈
      (requests.step (.sendMessage type payload flags)).1.entries := by
  rcases sendMessage_cases h type payload flags with ⟨_, _, _, hthrown, _⟩ | ⟨_, _, heq⟩
  · rw [hsent] at hthrown
    cases hthrown
  · rw [step, heq]
    exact List.mem_append_right _ (List.mem_singleton_self _)

/-- Whatever happens before and afterwards, in whatever order: the promise of a message is settled
by the first answer to the message, or by its timer. A reset strands it, and so does the timer of
another promise with its sequence number, and then only its own timer settles it. -/
theorem settled_unless_stranded (version : ℕ) (before after : List Event) (type : ℕ)
    (payload : List UInt8) (flags : ℕ) (message : List UInt8)
    (hsent : ((createMessage type payload flags).call
      (Runs.final step (newRequests version) before).handler).1 = .ok message) :
    let start := Runs.final step (newRequests version) before
    let place := start.promises.length
    let sequence := start.handler.sequence
    let sent := (start.step (.sendMessage type payload flags)).1
    (Runs.final step sent after).HasOutcome place sequence
      ((((Runs.moves step sent after).takeWhile fun move =>
          !move.1.strands place sequence move.2).findSome? fun move =>
            settledBy version place sequence move.2).or
        (if .timer place ∈ after then some .timeout else none)) := by
  intro start place sequence sent
  obtain ⟨hconsistent, hversion⟩ := consistent_run version before
  have hrun := waiting_run (consistent_step hconsistent (.sendMessage type payload flags))
    (sent_entry hconsistent hsent) after
  rw [version_step hconsistent, hversion] at hrun
  exact hrun

/-- A response of one byte to the message with the number 1. -/
def responsePacket : List UInt8 :=
  [1, 4, 0, 0, 1, 0, 0, 0, 1, 0, 0, 0, 9, 0, 0, 0, 9]

/-- After a reset the number 1 is given out again, and the timer of the first promise comes between
the second one and its answer. -/
theorem settled_unless_stranded_reset :
    (Runs.final step (Runs.final step (newRequests 1)
        [.sendMessage 3 [1, 2] 8, .reset, .sendMessage 3 [1, 2] 8])
      [.timer 0, .data 0 responsePacket, .timer 1]).HasOutcome 1 1 (some .timeout) :=
  settled_unless_stranded 1 [.sendMessage 3 [1, 2] 8, .reset]
    [.timer 0, .data 0 responsePacket, .timer 1] 3 [1, 2] 8
    [1, 3, 8, 0, 1, 0, 0, 0, 2, 0, 0, 0, 34, 0, 0, 0, 1, 2] rfl

/-- In a run without a reset the promise of a message is settled by the first event after it that
is an answer to the message or its timer, and by no other. -/
theorem settled_by_first (version : ℕ) (before after : List Event) (type : ℕ)
    (payload : List UInt8) (flags : ℕ) (message : List UInt8)
    (hreset : .reset ∉ before ++ after)
    (hsent : ((createMessage type payload flags).call
      (Runs.final step (newRequests version) before).handler).1 = .ok message) :
    let start := Runs.final step (newRequests version) before
    let place := start.promises.length
    let sequence := start.handler.sequence
    (Runs.final step (newRequests version)
        (before ++ .sendMessage type payload flags :: after)).HasOutcome
      place sequence (after.findSome? (settledBy version place sequence)) := by
  intro start place sequence
  obtain ⟨hconsistent, hversion⟩ := consistent_run version before
  have hdistinct := distinct_run version fun hmem => hreset (List.mem_append_left _ hmem)
  have hrun := unstranded_run (consistent_step hconsistent (.sendMessage type payload flags))
    (distinct_step hconsistent hdistinct _ (by simp)) (sent_entry hconsistent hsent)
    fun hmem => hreset (List.mem_append_right _ hmem)
  rw [version_step hconsistent, hversion] at hrun
  rw [Runs.final_append, Runs.final_cons]
  exact hrun

/-- A command is answered before its timer goes off. -/
theorem settled_by_first_command :
    (Runs.final step (newRequests 1)
      [.sendMessage 3 [1, 2] 8, .data 0 responsePacket, .timer 0]).HasOutcome 0 1
        (some (.resolved [9])) :=
  settled_by_first 1 [] [.data 0 responsePacket, .timer 0] 3 [1, 2] 8
    [1, 3, 8, 0, 1, 0, 0, 0, 2, 0, 0, 0, 34, 0, 0, 0, 1, 2] (by simp) rfl

end LibPolyCall.Node
