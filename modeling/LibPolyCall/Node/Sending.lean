import LibPolyCall.Node.Endpoint
import Mathlib.Data.Nat.SuccPred

/-!
# Sending over the network endpoint

Whatever the sockets do and in whatever order, the data that `send` accepts is handed to a socket
once or waits in `pendingData` (`accepted_run`), in the order of the calls unless a listener of
`connected` sends. It always goes to the socket made last, which need not be the one that has
connected. The promise of a `send` that waits for a connection is never resolved, although the data
goes out when a socket connects (`buffered_run`). The retries after lost connections wait longer and
longer, `maxRetries` times at most (`retries_run`).
-/

namespace LibPolyCall.Node

/-- What the `connect` and the `error` of sockets make of the promise of a `send`. -/
def SendState.next (state : SendState) : NetworkEndpoint.Event → SendState
  | .opened socket _ => state.opened socket
  | .failed socket => state.failed socket
  | _ => state

/-- The promise of a `send` does not wait for the callback of `write`, and if it waits for a socket,
then that socket was made. -/
def SendState.Waits (sockets : ℕ) (state : SendState) : Prop :=
  state ≠ .writing ∧ ∀ socket, state = .buffered socket → socket < sockets

/-- The data of an effect. -/
def Effect.data? : Effect → Option (List UInt8)
  | .writes _ data => some data
  | .drops data => some data
  | _ => none

/-- The factor of a wait. -/
def Effect.factor? : Effect → Option ℕ
  | .waits factor => some factor
  | _ => none

namespace NetworkEndpoint

open Runs

variable {endpoint : NetworkEndpoint}

/-! ## What one event does -/

/-- The data that an event hands to `write`. -/
def handed (endpoint : NetworkEndpoint) (event : Event) : List (List UInt8) :=
  (endpoint.step event).2.filterMap Effect.data?

/-- The data that an event makes the endpoint accept: a `send` throws it back if there is no
connection and none is to be made. -/
def accepted (endpoint : NetworkEndpoint) : Event → List (List UInt8)
  | .send data => if endpoint.connected || endpoint.reconnect then [data] else []
  | .opened socket listeners => if socket < endpoint.sockets then listeners else []
  | _ => []

/-- No listener of `connected` sends. -/
def Event.isQuiet : Event → Bool
  | .opened _ listeners => listeners.isEmpty
  | _ => true

/-- What the events keep. -/
structure Sound (endpoint : NetworkEndpoint) : Prop where
  /-- Nothing waits while there is a connection. -/
  flushed : endpoint.connected = true → endpoint.pendingData = []
  /-- The current socket is the one made last. -/
  current : ∀ {socket}, endpoint.socket = some socket → socket + 1 = endpoint.sockets

/-- A new endpoint is sound. -/
theorem sound_new (reconnect : Bool) (maxRetries : ℕ) :
    (newNetworkEndpoint reconnect maxRetries).Sound where
  flushed _ := rfl
  current h := by cases h

/-- Every event keeps an endpoint sound. -/
theorem Sound.step (h : endpoint.Sound) (event : Event) : (endpoint.step event).1.Sound := by
  have hdoes := does_step endpoint event
  generalize endpoint.step event = result at hdoes ⊢
  cases hdoes with
  | idle _ => exact h
  | connect => exact ⟨h.flushed, fun hcurrent => by cases hcurrent; rfl⟩
  | writes _ => exact ⟨h.flushed, h.current⟩
  | buffers hconnected _ =>
    exact ⟨fun hyes => Bool.noConfusion (hconnected.symm.trans hyes),
      fun hcurrent => by cases hcurrent; rfl⟩
  | refuses _ _ => exact ⟨h.flushed, h.current⟩
  | disconnect _ => exact ⟨h.flushed, h.current⟩
  | opened _ => exact ⟨fun _ => rfl, h.current⟩
  | closed _ => exact ⟨fun hyes => Bool.noConfusion hyes, h.current⟩
  | failed _ => exact ⟨fun hyes => Bool.noConfusion hyes, h.current⟩
  | retry _ => exact ⟨h.flushed, fun hcurrent => by cases hcurrent; rfl⟩
  | ended _ => exact ⟨fun hyes => Bool.noConfusion hyes, fun hcurrent => by cases hcurrent⟩
  | written _ => exact ⟨h.flushed, h.current⟩

/-! ## The data -/

/-- What is handed out carries its data. -/
@[simp] theorem data?_hand (data : List UInt8) (socket : Option ℕ) :
    Effect.data? (hand data socket) = some data := by
  cases socket with
  | none => rfl
  | some socket => rfl

/-- What is handed out in turn carries its data in order. -/
theorem filterMap_hand (datas : List (List UInt8)) (socket : Option ℕ) :
    (datas.map fun data => hand data socket).filterMap Effect.data? = datas := by
  rw [List.filterMap_map]
  have hdata : (Effect.data? ∘ fun data => hand data socket) = some := by
    funext data
    exact data?_hand data socket
  rw [hdata, List.filterMap_some]

/-- Timers carry no data. -/
theorem filterMap_waits (n factor : ℕ) :
    (List.replicate n (Effect.waits factor)).filterMap Effect.data? = [] := by
  rw [List.filterMap_eq_nil_iff]
  intro effect heffect
  rw [List.eq_of_mem_replicate heffect]
  rfl

/-- Except where listeners send, an event hands out the data that it accepts, or appends it to what
is pending, or hands out what is pending. -/
theorem handed_or_kept (h : endpoint.Sound) (event : Event) :
    endpoint.handed event ++ (endpoint.step event).1.pendingData =
        endpoint.pendingData ++ endpoint.accepted event ∨
      event.isQuiet = false ∧
        endpoint.handed event ++ (endpoint.step event).1.pendingData =
          endpoint.accepted event ++ endpoint.pendingData := by
  have hdoes := does_step endpoint event
  rw [handed]
  generalize endpoint.step event = result at hdoes ⊢
  cases hdoes with
  | idle hidle =>
    left
    have hnone : endpoint.accepted event = [] := by
      cases event with
      | send data => exact hidle.elim
      | opened socket listeners => exact if_neg (Nat.not_lt.2 hidle)
      | _ => rfl
    rw [hnone, List.append_nil]
    rfl
  | writes hconnected =>
    left
    -- Nothing is pending.
    rw [accepted, hconnected, Bool.true_or, if_pos rfl, h.flushed hconnected,
      List.filterMap_cons_some (data?_hand _ _)]
    rfl
  | buffers _ hreconnect =>
    left
    rw [accepted, hreconnect, Bool.or_true, if_pos rfl]
    rfl
  | refuses hconnected hreconnect =>
    left
    rw [accepted, hconnected, hreconnect]
    exact (List.append_nil _).symm
  | @opened socket listeners hsocket =>
    rw [filterMap_hand, List.append_nil, accepted, if_pos hsocket]
    cases listeners with
    | nil =>
      left
      rw [List.nil_append, List.append_nil]
    | cons data rest => exact .inr ⟨rfl, rfl⟩
  | closed _ =>
    left
    rw [filterMap_waits]
    exact (List.append_nil _).symm
  | failed _ =>
    left
    rw [filterMap_waits]
    exact (List.append_nil _).symm
  | _ => exact .inl (List.append_nil _).symm

/-- Where no listener sends, the data goes out in order. -/
theorem handed_of_isQuiet (h : endpoint.Sound) {event : Event} (hquiet : event.isQuiet = true) :
    endpoint.handed event ++ (endpoint.step event).1.pendingData =
      endpoint.pendingData ++ endpoint.accepted event := by
  rcases handed_or_kept h event with heq | ⟨hloud, -⟩
  · exact heq
  · rw [hquiet] at hloud
    cases hloud

/-- The data goes out once or is kept. -/
theorem handed_step (h : endpoint.Sound) (event : Event) :
    (endpoint.handed event ++ (endpoint.step event).1.pendingData).Perm
      (endpoint.pendingData ++ endpoint.accepted event) := by
  rcases handed_or_kept h event with heq | ⟨-, heq⟩
  · rw [heq]
  · rw [heq]
    exact List.perm_append_comm

/-- Data goes to the current socket, by an endpoint that has made one or is connected. -/
theorem eq_hand_of_mem {event : Event} {effect : Effect} (h : effect ∈ (endpoint.step event).2)
    {data : List UInt8} (hdata : effect.data? = some data) :
    effect = hand data endpoint.socket ∧ (endpoint.connected = true ∨ 0 < endpoint.sockets) := by
  have hpasses (datas : List (List UInt8))
      (hmem : effect ∈ datas.map fun data => hand data endpoint.socket) :
      effect = hand data endpoint.socket := by
    obtain ⟨other, -, rfl⟩ := List.mem_map.1 hmem
    rw [data?_hand, Option.some.injEq] at hdata
    rw [hdata]
  have hother {effects : List Effect} (hmem : effect ∈ effects)
      (hnone : effects.filterMap Effect.data? = []) : False := by
    rw [List.filterMap_eq_nil_iff.1 hnone effect hmem] at hdata
    cases hdata
  have hdoes := does_step endpoint event
  generalize endpoint.step event = result at hdoes h
  cases hdoes with
  | @writes data' hconnected => exact ⟨hpasses [data'] h, .inl hconnected⟩
  | opened hsocket => exact ⟨hpasses _ h, .inr (by omega)⟩
  | closed _ => exact (hother h (filterMap_waits _ _)).elim
  | failed _ => exact (hother h (filterMap_waits _ _)).elim
  | _ => exact (hother h rfl).elim

/-- What the events keep as long as `disconnect` is not called: there is a current socket as soon as
one was made. -/
structure Open (endpoint : NetworkEndpoint) : Prop where
  ending : endpoint.ending = 0
  socket : endpoint.socket = none → endpoint.sockets = 0 ∧ endpoint.connected = false

/-- A new endpoint is open. -/
theorem open_new (reconnect : Bool) (maxRetries : ℕ) :
    (newNetworkEndpoint reconnect maxRetries).Open where
  ending := rfl
  socket _ := ⟨rfl, rfl⟩

/-- Every event but a `disconnect` keeps an endpoint open. -/
theorem Open.step (h : endpoint.Open) {event : Event} (hevent : event ≠ .disconnect) :
    (endpoint.step event).1.Open := by
  have hdoes := does_step endpoint event
  generalize endpoint.step event = result at hdoes ⊢
  cases hdoes with
  | idle _ => exact h
  | connect => exact ⟨h.ending, fun hnone => by cases hnone⟩
  | writes _ => exact ⟨h.ending, h.socket⟩
  | buffers _ _ => exact ⟨h.ending, fun hnone => by cases hnone⟩
  | refuses _ _ => exact ⟨h.ending, h.socket⟩
  | disconnect _ => exact absurd rfl hevent
  | opened hsocket =>
    refine ⟨h.ending, fun hnone => ?_⟩
    rw [(h.socket hnone).1] at hsocket
    exact absurd hsocket (Nat.not_lt_zero _)
  | closed _ => exact ⟨h.ending, fun hnone => ⟨(h.socket hnone).1, rfl⟩⟩
  | failed _ => exact ⟨h.ending, fun hnone => ⟨(h.socket hnone).1, rfl⟩⟩
  | retry _ => exact ⟨h.ending, fun hnone => by cases hnone⟩
  | ended hending =>
    rw [h.ending] at hending
    exact absurd hending (Nat.lt_irrefl 0)
  | written _ => exact ⟨h.ending, h.socket⟩

/-- Whatever the sockets, the timers and the callbacks do, and in whatever order, the data that
`send` accepts is handed out once or is still pending, and if no listener of `connected` sends, in
the order of the calls. It is written to the socket made last, or lost, but only if `disconnect` was
called. -/
theorem accepted_run (reconnect : Bool) (maxRetries : ℕ) (events : List Event) :
    let start := newNetworkEndpoint reconnect maxRetries
    (outputs step handed start events ++ (final step start events).pendingData).Perm
        (outputs step accepted start events) ∧
      ((∀ event ∈ events, event.isQuiet = true) →
        outputs step handed start events ++ (final step start events).pendingData =
          outputs step accepted start events) ∧
      ∀ m ∈ moves step start events, ∀ effect ∈ (m.1.step m.2).2, ∀ data,
        effect.data? = some data →
          (∃ socket, effect = .writes socket data ∧ socket + 1 = m.1.sockets) ∨
            effect = .drops data ∧ .disconnect ∈ events := by
  intro start
  have hsound : start.Sound := sound_new reconnect maxRetries
  have hsounds := final_of_step (P := Sound) (fun _ event h => h.step event) start events hsound
  refine ⟨?_, fun hquiet => ?_, fun m hm effect heffect data hdata => ?_⟩
  · have hperm := outputs_conserve (R := List.Perm) List.Perm.refl List.Perm.trans
      (fun h l r => (h.append_left l).append_right r) (P := Sound) (C := fun _ _ => True)
      (fun _ event h _ => h.step event) (fun _ event h _ => handed_step h event)
      start events hsound fun _ _ => trivial
    exact hperm
  · have heq := outputs_conserve (R := Eq) (fun _ => rfl) Eq.trans
      (fun h l r => by rw [h]) (P := Sound) (C := fun _ event => event.isQuiet = true)
      (fun _ event h _ => h.step event) (fun _ _ h hquiet => handed_of_isQuiet h hquiet)
      start events hsound fun m hm => hquiet _ (snd_mem_of_mem_moves hm)
    exact heq
  · obtain ⟨rfl, hmade⟩ := eq_hand_of_mem heffect hdata
    cases hsocket : m.1.socket with
    | some socket => exact .inl ⟨socket, rfl, (hsounds.1 m hm).current hsocket⟩
    | none =>
      refine .inr ⟨rfl, ?_⟩
      by_contra hdisconnect
      -- Until `disconnect` is called there is a current socket as soon as one is made.
      have hopen := (moves_of_step (P := Open) (C := fun _ event => event ≠ .disconnect)
        (fun _ _ h hevent => h.step hevent) start events
        (open_new reconnect maxRetries)
        (fun m hm heq => hdisconnect (heq ▸ snd_mem_of_mem_moves hm))).1 m hm
      obtain ⟨hzero, hconnected⟩ := hopen.socket hsocket
      rcases hmade with hmade | hmade
      · rw [hconnected] at hmade
        cases hmade
      · omega

/-- Two calls of `send` make two sockets. When the first one connects, both go to the second. -/
theorem accepted_run_twice :
    outputs step handed (newNetworkEndpoint true 3) [.send [1], .send [2], .opened 0 []] =
        [[1], [2]] ∧
      (step (final step (newNetworkEndpoint true 3) [.send [1], .send [2]]) (.opened 0 [])).2 =
        [.writes 1 [1], .writes 1 [2]] := by
  have h := (accepted_run true 3 [.send [1], .send [2], .opened 0 []]).2.1 (by decide)
  exact ⟨(List.append_nil _).symm.trans h, by decide⟩

/-! ## The promises -/

/-- What an event makes of the promise of a `send` that waits for the `connect` of a socket. -/
def settled (socket : ℕ) : Event → Option SendState
  | .opened other _ => if other = socket then some .abandoned else none
  | .failed other => if other = socket then some .rejected else none
  | _ => none

/-- A socket that connects settles no promise that does not wait for it. -/
theorem opened_of_ne {socket : ℕ} {state : SendState} (h : state ≠ .buffered socket) :
    state.opened socket = state :=
  if_neg h

/-- A socket that fails settles no promise that does not wait for it. -/
theorem failed_of_ne {socket : ℕ} {state : SendState} (h : state ≠ .buffered socket) :
    state.failed socket = state :=
  if_neg h

/-- An event does not make a promise wait for `write`, or for a socket that was not made. -/
theorem waits_next {sockets : ℕ} {state : SendState} (h : state.Waits sockets) (event : Event) :
    (state.next event).Waits sockets := by
  cases event with
  | opened socket listeners =>
    rw [SendState.next, SendState.opened]
    split
    · exact ⟨SendState.noConfusion, fun _ heq => by cases heq⟩
    · exact h
  | failed socket =>
    rw [SendState.next, SendState.failed]
    split
    · exact ⟨SendState.noConfusion, fun _ heq => by cases heq⟩
    · exact h
  | _ => exact h

/-- Sockets are only made. -/
theorem sockets_le_step (endpoint : NetworkEndpoint) (event : Event) :
    endpoint.sockets ≤ (endpoint.step event).1.sockets := by
  have hdoes := does_step endpoint event
  generalize endpoint.step event = result at hdoes ⊢
  cases hdoes with
  | connect => exact Nat.le_succ _
  | buffers _ _ => exact Nat.le_succ _
  | retry _ => exact Nat.le_succ _
  | _ => exact Nat.le_refl _

/-- What has a place in a list keeps it when more comes behind. -/
theorem getElem?_append_of_some {place : ℕ} {sends : List SendState} {state : SendState}
    (h : sends[place]? = some state) (more : List SendState) :
    (sends ++ more)[place]? = some state := by
  rw [List.getElem?_append_left (List.getElem?_eq_some_iff.1 h).1, h]

/-- What an event makes of the promise of a `send`. -/
theorem promise_step {place : ℕ} {state : SendState} (h : endpoint.sends[place]? = some state)
    (hwaits : state.Waits endpoint.sockets) (event : Event) :
    (endpoint.step event).1.sends[place]? = some (state.next event) := by
  have hdoes := does_step endpoint event
  generalize endpoint.step event = result at hdoes ⊢
  cases hdoes with
  | idle hidle =>
    -- A promise does not wait for a socket that was not made.
    have hnext : state.next event = state := by
      cases event with
      | opened socket listeners =>
        exact opened_of_ne fun heq => Nat.not_lt.2 hidle (hwaits.2 socket heq)
      | failed socket => exact failed_of_ne fun heq => Nat.not_lt.2 hidle (hwaits.2 socket heq)
      | _ => rfl
    rw [hnext]
    exact h
  | writes _ => exact getElem?_append_of_some h _
  | buffers _ _ => exact getElem?_append_of_some h _
  | refuses _ _ => exact getElem?_append_of_some h _
  | opened _ =>
    show (List.map _ _)[place]? = _
    rw [List.getElem?_map, getElem?_append_of_some h]
    rfl
  | failed _ =>
    show (List.map _ _)[place]? = _
    rw [List.getElem?_map, h]
    rfl
  | @written other error hother =>
    have hne : other ≠ place := by
      rintro rfl
      rw [h, Option.some.injEq] at hother
      exact hwaits.1 hother
    show (List.set _ _ _)[place]? = _
    rw [List.getElem?_set_ne hne]
    exact h
  | _ => exact h

/-- In a run the promise of a `send` does what each event does to it. -/
theorem promise_run {place : ℕ} : ∀ {endpoint : NetworkEndpoint} {state : SendState}
    (events : List Event), endpoint.sends[place]? = some state → state.Waits endpoint.sockets →
      (final step endpoint events).sends[place]? = some (events.foldl SendState.next state)
  | _, _, [], h, _ => h
  | endpoint, _, event :: events, h, hwaits => by
    have hnext := waits_next hwaits event
    have hle := sockets_le_step endpoint event
    exact promise_run events (promise_step h hwaits event)
      ⟨hnext.1, fun socket heq => Nat.lt_of_lt_of_le (hnext.2 socket heq) hle⟩

/-- A promise that waits for no socket stays as it is. -/
theorem foldl_next_of_ne {state : SendState} (h : ∀ socket, state ≠ .buffered socket)
    (events : List Event) : events.foldl SendState.next state = state := by
  induction events with
  | nil => rfl
  | cons event events ih =>
    have hnext : state.next event = state := by
      cases event with
      | opened socket listeners => exact opened_of_ne (h socket)
      | failed socket => exact failed_of_ne (h socket)
      | _ => rfl
    rw [List.foldl_cons, hnext, ih]

/-- A promise that waits for a socket is settled by the first event that says whether the socket
connects. -/
theorem foldl_next_buffered (socket : ℕ) (events : List Event) :
    events.foldl SendState.next (.buffered socket) =
      (events.findSome? (settled socket)).getD (.buffered socket) := by
  induction events with
  | nil => rfl
  | cons event events ih =>
    rw [List.foldl_cons, List.findSome?_cons]
    cases event with
    | opened other listeners =>
      by_cases hother : other = socket
      · rw [settled, if_pos hother, SendState.next, hother, SendState.opened, if_pos rfl]
        exact foldl_next_of_ne (fun _ => SendState.noConfusion) events
      · rw [settled, if_neg hother, SendState.next,
          opened_of_ne fun heq => hother (by cases heq; rfl)]
        exact ih
    | failed other =>
      by_cases hother : other = socket
      · rw [settled, if_pos hother, SendState.next, hother, SendState.failed, if_pos rfl]
        exact foldl_next_of_ne (fun _ => SendState.noConfusion) events
      · rw [settled, if_neg hother, SendState.next,
          failed_of_ne fun heq => hother (by cases heq; rfl)]
        exact ih
    | _ => exact ih

/-- An event of the socket does not resolve a promise that waits for it. -/
theorem ne_resolved_of_settled {socket : ℕ} {event : Event} {state : SendState}
    (h : settled socket event = some state) : state ≠ .resolved := by
  rintro rfl
  cases event with
  | opened other listeners =>
    rw [settled] at h
    split at h
    · cases h
    · cases h
  | failed other =>
    rw [settled] at h
    split at h
    · cases h
    · cases h
  | _ => cases h

/-- What is pending is handed out by an event, or it stays pending. -/
theorem mem_handed_or_pending {data : List UInt8} (h : data ∈ endpoint.pendingData)
    (event : Event) :
    data ∈ endpoint.handed event ∨ data ∈ (endpoint.step event).1.pendingData := by
  have hdoes := does_step endpoint event
  rw [handed]
  generalize endpoint.step event = result at hdoes ⊢
  cases hdoes with
  | buffers _ _ => exact .inr (List.mem_append_left _ h)
  | opened _ =>
    left
    rw [filterMap_hand]
    exact List.mem_append_right _ h
  | _ => exact .inr h

/-- When a socket connects, nothing stays pending. -/
theorem pendingData_opened {socket : ℕ} (hsocket : socket < endpoint.sockets)
    (listeners : List (List UInt8)) :
    (endpoint.step (.opened socket listeners)).1.pendingData = [] := by
  rw [step, if_pos hsocket, opened_eq]

/-- What is pending is handed out in every run in which a socket that was made connects. -/
theorem mem_handed_run {data : List UInt8} {socket : ℕ} {listeners : List (List UInt8)} :
    ∀ {endpoint : NetworkEndpoint} {events : List Event}, data ∈ endpoint.pendingData →
      socket < endpoint.sockets → .opened socket listeners ∈ events →
        data ∈ outputs step handed endpoint events
  | _, [], _, _, hopened => absurd hopened List.not_mem_nil
  | endpoint, event :: events, hpending, hsocket, hopened => by
    rw [outputs_cons, List.mem_append]
    rcases mem_handed_or_pending hpending event with hhanded | hpending
    · exact .inl hhanded
    right
    rcases List.mem_cons.1 hopened with rfl | hopened
    · rw [pendingData_opened hsocket] at hpending
      exact absurd hpending List.not_mem_nil
    · exact mem_handed_run hpending (hsocket.trans_le (sockets_le_step endpoint event)) hopened

/-- The waits for the retries that an event starts, as multiples of `retryDelay`. -/
def waits (endpoint : NetworkEndpoint) (event : Event) : List ℕ :=
  (endpoint.step event).2.filterMap Effect.factor?

/-- The event calls `connect` for a socket that no timer makes: as a method, or in `send`. -/
def connects (endpoint : NetworkEndpoint) : Event → Bool
  | .connect => true
  | .send _ => !endpoint.connected && endpoint.reconnect
  | _ => false

/-- The factors of several timers in turn. -/
theorem filterMap_factor (n factor : ℕ) :
    (List.replicate n (Effect.waits factor)).filterMap Effect.factor? =
      List.replicate n factor :=
  List.filterMap_replicate_of_some (f := Effect.factor?) rfl

/-- What is handed out starts no timer. -/
theorem factor?_hand (data : List UInt8) (socket : Option ℕ) :
    Effect.factor? (hand data socket) = none := by
  cases socket with
  | none => rfl
  | some socket => rfl

/-- Nor does what is handed out in turn. -/
theorem filterMap_factor_hand (datas : List (List UInt8)) (socket : Option ℕ) :
    (datas.map fun data => hand data socket).filterMap Effect.factor? = [] := by
  rw [List.filterMap_eq_nil_iff]
  intro effect heffect
  obtain ⟨data, -, rfl⟩ := List.mem_map.1 heffect
  exact factor?_hand data socket

/-- A socket is made by a call or by a timer, and each wait is for a timer. -/
theorem sockets_step (endpoint : NetworkEndpoint) (event : Event) :
    (endpoint.step event).1.sockets + (endpoint.step event).1.timers =
      endpoint.sockets + endpoint.timers + (endpoint.waits event).length +
        if endpoint.connects event then 1 else 0 := by
  have hdoes := does_step endpoint event
  rw [waits]
  generalize endpoint.step event = result at hdoes ⊢
  cases hdoes with
  | idle hidle =>
    cases event with
    | connect => exact hidle.elim
    | send data => exact hidle.elim
    | _ => rfl
  | connect =>
    show endpoint.sockets + 1 + endpoint.timers = _
    exact Nat.add_right_comm _ _ _
  | writes hconnected =>
    rw [connects, hconnected, List.filterMap_cons_none (factor?_hand _ _)]
    rfl
  | buffers hconnected hreconnect =>
    rw [connects, hconnected, hreconnect]
    exact Nat.add_right_comm _ _ _
  | refuses _ hreconnect =>
    rw [connects, hreconnect, Bool.and_false]
    rfl
  | opened _ =>
    rw [filterMap_factor_hand]
    rfl
  | closed _ =>
    rw [filterMap_factor, List.length_replicate]
    exact (Nat.add_assoc _ _ _).symm
  | failed _ =>
    rw [filterMap_factor, List.length_replicate]
    exact (Nat.add_assoc _ _ _).symm
  | retry htimers =>
    show endpoint.sockets + 1 + (endpoint.timers - 1) = endpoint.sockets + endpoint.timers
    omega
  | _ => rfl

/-- An event that is not the `connect` of a socket waits for one retry, longer than the last time,
or for none. -/
theorem waits_step {event : Event} (hevent : ∀ socket listeners, event ≠ .opened socket listeners) :
    endpoint.waits event = [] ∧ (endpoint.step event).1.retryCount = endpoint.retryCount ∨
      endpoint.waits event = [endpoint.retryCount + 1] ∧
        (endpoint.step event).1.retryCount = endpoint.retryCount + 1 := by
  have hdoes := does_step endpoint event
  rw [waits]
  generalize endpoint.step event = result at hdoes ⊢
  have hretries {n : ℕ} (hn : n = endpoint.retries) :
      List.replicate n (endpoint.retryCount + 1) = [] ∧
          endpoint.retryCount + n = endpoint.retryCount ∨
        List.replicate n (endpoint.retryCount + 1) = [endpoint.retryCount + 1] ∧
          endpoint.retryCount + n = endpoint.retryCount + 1 := by
    rw [retries] at hn
    split at hn
    · exact .inr (by rw [hn]; exact ⟨rfl, rfl⟩)
    · exact .inl (by rw [hn]; exact ⟨rfl, rfl⟩)
  cases hdoes with
  | opened _ => exact absurd rfl (hevent _ _)
  | writes _ => exact .inl ⟨List.filterMap_cons_none (factor?_hand _ _), rfl⟩
  | closed _ =>
    rw [filterMap_factor]
    exact hretries rfl
  | failed _ =>
    rw [filterMap_factor]
    exact hretries rfl
  | _ => exact .inl ⟨rfl, rfl⟩

/-- A wait is one of at most `maxRetries` and needs `reconnect`, which is never set again. -/
theorem of_mem_waits {event : Event} {factor : ℕ} (h : factor ∈ endpoint.waits event) :
    factor ≤ endpoint.maxRetries ∧ endpoint.reconnect = true := by
  have hdoes := does_step endpoint event
  rw [waits] at h
  generalize endpoint.step event = result at hdoes h
  have hretries (hmem : factor ∈ List.replicate endpoint.retries (endpoint.retryCount + 1)) :
      factor ≤ endpoint.maxRetries ∧ endpoint.reconnect = true := by
    rw [retries] at hmem
    split at hmem
    next hretry =>
      rw [Bool.and_eq_true, decide_eq_true_eq] at hretry
      rw [List.mem_singleton.1 hmem]
      exact ⟨hretry.2, hretry.1⟩
    · cases hmem
  cases hdoes with
  | writes _ =>
    rw [List.filterMap_cons_none (factor?_hand _ _)] at h
    cases h
  | opened _ =>
    rw [filterMap_factor_hand] at h
    cases h
  | closed _ =>
    rw [filterMap_factor] at h
    exact hretries h
  | failed _ =>
    rw [filterMap_factor] at h
    exact hretries h
  | _ => cases h

/-- An event leaves `maxRetries` alone and does not set `reconnect`. -/
theorem options_step (event : Event) :
    (endpoint.step event).1.maxRetries = endpoint.maxRetries ∧
      (endpoint.reconnect = false → (endpoint.step event).1.reconnect = false) := by
  have hdoes := does_step endpoint event
  generalize endpoint.step event = result at hdoes ⊢
  cases hdoes with
  | disconnect _ => exact ⟨rfl, fun _ => rfl⟩
  | _ => exact ⟨rfl, id⟩

/-- A run adds a socket or a waiting timer for each timer started and each call that connects. -/
theorem sockets_run (endpoint : NetworkEndpoint) (events : List Event) :
    (final step endpoint events).sockets + (final step endpoint events).timers =
      endpoint.sockets + endpoint.timers + (outputs step waits endpoint events).length +
        count step connects endpoint events := by
  induction events generalizing endpoint with
  | nil => rfl
  | cons event events ih =>
    have hstep := sockets_step endpoint event
    rw [final_cons, ih, outputs_cons, count_cons, List.length_append]
    omega

/-- Every socket is made by a call of `connect`, by a `send` without a connection, or by a retry.
While no socket connects, each retry waits longer than the one before by `retryDelay`, up to
`maxRetries` times that, and once `disconnect` has cleared `reconnect` there is none. -/
theorem retries_run (endpoint : NetworkEndpoint) (events : List Event) :
    let result := final step endpoint events
    let factors := outputs step waits endpoint events
    result.sockets + result.timers =
        endpoint.sockets + endpoint.timers + factors.length +
          count step connects endpoint events ∧
      ((∀ event ∈ events, ∀ socket listeners, event ≠ .opened socket listeners) →
        ∃ n, factors = (List.range n).map (fun k => endpoint.retryCount + 1 + k) ∧
          endpoint.retryCount + n ≤ max endpoint.retryCount endpoint.maxRetries) ∧
      (endpoint.reconnect = false → factors = []) := by
  intro result factors
  refine ⟨sockets_run endpoint events, fun hquiet => ?_, fun hreconnect => ?_⟩
  · have hall := final_of_step (P := fun e => e.maxRetries = endpoint.maxRetries)
      (fun e event h => (options_step event).1.trans h) endpoint events rfl
    obtain ⟨n, hn⟩ := outputs_eq_iterates (P := fun _ => True)
      (C := fun _ event => ∀ socket listeners, event ≠ .opened socket listeners)
      (fun e : NetworkEndpoint => e.retryCount + 1) Nat.succ (fun _ _ _ _ => trivial)
      (fun e event _ hevent => by
        rcases waits_step hevent with ⟨hnone, hcount⟩ | ⟨hone, hcount⟩
        · exact .inl ⟨hnone, by rw [hcount]⟩
        · exact .inr ⟨hone, by rw [hcount]⟩)
      endpoint events trivial fun m hm => hquiet _ (snd_mem_of_mem_moves hm)
    simp only [Nat.succ_iterate] at hn
    refine ⟨n, hn, ?_⟩
    cases n with
    | zero => exact Nat.le_max_left _ _
    | succ n =>
      -- The last factor is one of those that are at most `maxRetries`.
      have hlast : endpoint.retryCount + 1 + n ∈ outputs step waits endpoint events := by
        rw [hn]
        exact List.mem_map_of_mem (List.mem_range.2 (Nat.lt_succ_self n))
      obtain ⟨m, hm, hmem⟩ := List.mem_flatMap.1 hlast
      have hle := (of_mem_waits hmem).1
      rw [hall.1 m hm] at hle
      omega
  · have hall := final_of_step (P := fun e => e.reconnect = false)
      (fun _ event h => (options_step event).2 h) endpoint events hreconnect
    refine List.eq_nil_iff_forall_not_mem.2 fun factor hfactor => ?_
    obtain ⟨m, hm, hmem⟩ := List.mem_flatMap.1 hfactor
    have hyes := (of_mem_waits hmem).2
    rw [hall.1 m hm] at hyes
    cases hyes

/-- A socket that fails gives `error` and `close`, and each of the two makes a retry. -/
theorem retries_run_failed :
    outputs step waits (newNetworkEndpoint true 3)
        [.connect, .failed 0, .closed 0, .retry, .failed 1, .closed 1] = [1, 2, 3] ∧
      ∃ n, [1, 2, 3] = (List.range n).map (fun k => 0 + 1 + k) ∧ 0 + n ≤ max 0 3 :=
  ⟨by decide, (retries_run (newNetworkEndpoint true 3)
    [.connect, .failed 0, .closed 0, .retry, .failed 1, .closed 1]).2.1 (by
      intro event hevent socket listeners heq
      rw [heq] at hevent
      simp at hevent)⟩

end NetworkEndpoint

end LibPolyCall.Node
