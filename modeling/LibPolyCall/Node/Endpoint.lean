import LibPolyCall.Library.Runs

/-!
# The network endpoint of the Node binding

`NetworkEndpoint.js`, as a client. A call of `connect` makes a new socket, which becomes the
current one while the ones before it go on giving events, and `send` makes one each time that it is
called before a socket has connected. Sockets are named by their place among the sockets made, and
the promises of `send` by their place among the promises made. What the sockets, the timers and the
callbacks do follows in any order, but only a socket that was made gives an event. Data is a list of
bytes. Of the listeners only what those of `connected` send is kept, so that `error` has one, and no
call of `net` throws apart from the `write` of `null`. The server's half is left out, and so is
`handleData`, which hands the data on to the protocol.
-/

namespace LibPolyCall.Node

/-- The promise of a call of `send`. -/
inductive SendState where
  /-- The data waits in `pendingData`, and the promise for the `connect` of this socket to throw. -/
  | buffered (socket : ℕ)
  /-- That socket has connected, so that nothing settles the promise any more. -/
  | abandoned
  /-- The data was written, and the callback of `write` has not been called. -/
  | writing
  | resolved
  | rejected
deriving DecidableEq

/-- `resolve(this)` of the `connect` of a socket: a later `reject` does nothing. -/
def SendState.opened (socket : ℕ) (state : SendState) : SendState :=
  if state = .buffered socket then .abandoned else state

/-- `reject(error)` of the `connect` of a socket, which a `send` passes on. -/
def SendState.failed (socket : ℕ) (state : SendState) : SendState :=
  if state = .buffered socket then .rejected else state

/-- What the endpoint has done by others. -/
inductive Effect where
  /-- A new socket is told to connect. -/
  | opens (socket : ℕ)
  | writes (socket : ℕ) (data : List UInt8)
  /-- `this.socket.write(data)` where `this.socket` is `null`. -/
  | drops (data : List UInt8)
  | ends (socket : ℕ)
  /-- A timer of `retryDelay` times this number. -/
  | waits (factor : ℕ)
deriving DecidableEq

/-- A `NetworkEndpoint`. -/
structure NetworkEndpoint where
  reconnect : Bool
  maxRetries : ℕ
  /-- The number of sockets made. -/
  sockets : ℕ
  /-- `this.socket`. -/
  socket : Option ℕ
  connected : Bool
  retryCount : ℕ
  pendingData : List (List UInt8)
  /-- The timers of `handleDisconnect` that have not fired. -/
  timers : ℕ
  /-- The callbacks of `disconnect` that have not been called. -/
  ending : ℕ
  /-- The promises of `send`. -/
  sends : List SendState
deriving DecidableEq

/-- The constructor. -/
def newNetworkEndpoint (reconnect : Bool) (maxRetries : ℕ) : NetworkEndpoint where
  reconnect
  maxRetries
  sockets := 0
  socket := none
  connected := false
  retryCount := 0
  pendingData := []
  timers := 0
  ending := 0
  sends := []

namespace NetworkEndpoint

variable (endpoint : NetworkEndpoint)

/-- `connect`, up to the first event of its socket. -/
def connect : NetworkEndpoint × List Effect :=
  ({ endpoint with sockets := endpoint.sockets + 1, socket := some endpoint.sockets },
    [.opens endpoint.sockets])

/-- `send`. -/
def send (data : List UInt8) : NetworkEndpoint × List Effect :=
  if !endpoint.connected then
    if endpoint.reconnect then
      let opened := connect { endpoint with pendingData := endpoint.pendingData ++ [data] }
      ({ opened.1 with sends := endpoint.sends ++ [.buffered endpoint.sockets] }, opened.2)
    else ({ endpoint with sends := endpoint.sends ++ [.rejected] }, [])
  else
    match endpoint.socket with
    | some socket =>
      ({ endpoint with sends := endpoint.sends ++ [.writing] }, [.writes socket data])
    | none => ({ endpoint with sends := endpoint.sends ++ [.rejected] }, [.drops data])

/-- One `send` after the other. -/
def sendAll (endpoint : NetworkEndpoint) : List (List UInt8) → NetworkEndpoint × List Effect
  | [] => (endpoint, [])
  | data :: rest =>
    let sent := endpoint.send data
    let next := sendAll sent.1 rest
    (next.1, sent.2 ++ next.2)

/-- The loop over `pendingData`, for at most so many rounds. -/
def flush (endpoint : NetworkEndpoint) : ℕ → NetworkEndpoint × List Effect
  | 0 => (endpoint, [])
  | rounds + 1 =>
    match endpoint.pendingData with
    | [] => (endpoint, [])
    | data :: rest =>
      let sent := send { endpoint with pendingData := rest } data
      let next := flush sent.1 rounds
      (next.1, sent.2 ++ next.2)

/-- A socket has connected: its event `connect`, with what the listeners of `connected` send. -/
def opened (socket : ℕ) (listeners : List (List UInt8)) : NetworkEndpoint × List Effect :=
  let heard := sendAll { endpoint with connected := true, retryCount := 0 } listeners
  let flushed := flush heard.1 heard.1.pendingData.length
  ({ flushed.1 with sends := flushed.1.sends.map (SendState.opened socket) },
    heard.2 ++ flushed.2)

/-- `handleDisconnect`. -/
def handleDisconnect : NetworkEndpoint × List Effect :=
  if endpoint.reconnect && endpoint.retryCount < endpoint.maxRetries then
    ({ endpoint with
        connected := false
        retryCount := endpoint.retryCount + 1
        timers := endpoint.timers + 1 },
      [.waits (endpoint.retryCount + 1)])
  else ({ endpoint with connected := false }, [])

/-- The event `error` of a socket. -/
def failed (socket : ℕ) : NetworkEndpoint × List Effect :=
  let handled := endpoint.handleDisconnect
  ({ handled.1 with sends := handled.1.sends.map (SendState.failed socket) }, handled.2)

/-- `disconnect`. -/
def disconnect : NetworkEndpoint × List Effect :=
  match endpoint.socket with
  | some socket =>
    ({ endpoint with reconnect := false, ending := endpoint.ending + 1 }, [.ends socket])
  | none => (endpoint, [])

/-- What can happen to an endpoint. -/
inductive Event where
  | connect
  | send (data : List UInt8)
  | disconnect
  /-- The events `connect`, `close` and `error` of a socket. -/
  | opened (socket : ℕ) (listeners : List (List UInt8))
  | closed (socket : ℕ)
  | failed (socket : ℕ)
  /-- A timer of `handleDisconnect` fires. -/
  | retry
  /-- The callback of `disconnect`. -/
  | ended
  /-- The callback of the `write` of a `send`. -/
  | written (place : ℕ) (error : Bool)
deriving DecidableEq

/-- One event. -/
def step : Event → NetworkEndpoint × List Effect
  | .connect => endpoint.connect
  | .send data => endpoint.send data
  | .disconnect => endpoint.disconnect
  | .opened socket listeners =>
    if socket < endpoint.sockets then endpoint.opened socket listeners else (endpoint, [])
  | .closed socket =>
    if socket < endpoint.sockets then endpoint.handleDisconnect else (endpoint, [])
  | .failed socket =>
    if socket < endpoint.sockets then endpoint.failed socket else (endpoint, [])
  | .retry =>
    if 0 < endpoint.timers then
      connect { endpoint with timers := endpoint.timers - 1 }
    else (endpoint, [])
  | .ended =>
    if 0 < endpoint.ending then
      ({ endpoint with socket := none, connected := false, ending := endpoint.ending - 1 }, [])
    else (endpoint, [])
  | .written place error =>
    if endpoint.sends[place]? = some .writing then
      ({ endpoint with
          sends := endpoint.sends.set place (if error then .rejected else .resolved) }, [])
    else (endpoint, [])

variable {endpoint : NetworkEndpoint}

/-! ## What the methods do -/

/-- The promise of a `send` of a connected endpoint, by its current socket. -/
def promised : Option ℕ → SendState
  | some _ => .writing
  | none => .rejected

/-- What a connected endpoint does with data, by its current socket. -/
def hand (data : List UInt8) : Option ℕ → Effect
  | some socket => .writes socket data
  | none => .drops data

/-- With a connection, `send` hands the data to `write`. -/
theorem send_of_connected (h : endpoint.connected = true) (data : List UInt8) :
    endpoint.send data =
      ({ endpoint with sends := endpoint.sends ++ [promised endpoint.socket] },
        [hand data endpoint.socket]) := by
  rw [send, h]
  cases hsocket : endpoint.socket with
  | none => rfl
  | some socket => rfl

/-- Without a connection, `send` keeps the data and makes a socket, where `reconnect` is set. -/
theorem send_of_reconnect (h : endpoint.connected = false) (hreconnect : endpoint.reconnect = true)
    (data : List UInt8) :
    endpoint.send data =
      ({ endpoint with
          pendingData := endpoint.pendingData ++ [data]
          sockets := endpoint.sockets + 1
          socket := some endpoint.sockets
          sends := endpoint.sends ++ [.buffered endpoint.sockets] },
        [.opens endpoint.sockets]) := by
  rw [send, h, hreconnect]
  rfl

/-- Without a connection, `send` rejects its promise, where `reconnect` is not set. -/
theorem send_of_not_reconnect (h : endpoint.connected = false)
    (hreconnect : endpoint.reconnect = false) (data : List UInt8) :
    endpoint.send data = ({ endpoint with sends := endpoint.sends ++ [.rejected] }, []) := by
  rw [send, h, hreconnect]
  rfl

/-- With a connection, the data of several sends is handed to `write` in order. -/
theorem sendAll_of_connected {endpoint : NetworkEndpoint} (h : endpoint.connected = true)
    (datas : List (List UInt8)) :
    endpoint.sendAll datas =
      ({ endpoint with
          sends := endpoint.sends ++ List.replicate datas.length (promised endpoint.socket) },
        datas.map fun data => hand data endpoint.socket) := by
  induction datas generalizing endpoint with
  | nil => rw [sendAll, List.length_nil, List.replicate_zero, List.append_nil, List.map_nil]
  | cons data rest ih =>
    rw [sendAll, send_of_connected h]
    -- The rest is sent by an endpoint that is connected to the same socket.
    have hrest : sendAll { endpoint with sends := endpoint.sends ++ [promised endpoint.socket] }
      rest = _ := ih h
    simp only [hrest, List.append_assoc, List.singleton_append, List.length_cons,
      List.replicate_succ, List.map_cons]

/-- As many rounds as there is data in `pendingData` empty it. -/
theorem flush_of_connected {endpoint : NetworkEndpoint} (h : endpoint.connected = true) {rounds : ℕ}
    (hrounds : endpoint.pendingData.length = rounds) :
    endpoint.flush rounds =
      ({ endpoint with
          pendingData := []
          sends := endpoint.sends ++ List.replicate rounds (promised endpoint.socket) },
        endpoint.pendingData.map fun data => hand data endpoint.socket) := by
  induction rounds generalizing endpoint with
  | zero =>
    rw [List.length_eq_zero_iff] at hrounds
    rw [flush, List.replicate_zero, List.append_nil, hrounds, List.map_nil, ← hrounds]
  | succ rounds ih =>
    cases hpending : endpoint.pendingData with
    | nil =>
      rw [hpending] at hrounds
      cases hrounds
    | cons data rest =>
      rw [hpending, List.length_cons, Nat.add_right_cancel_iff] at hrounds
      have hsent : send { endpoint with pendingData := rest } data = _ :=
        send_of_connected (by exact h) data
      have hrest : flush { endpoint with
        pendingData := rest, sends := endpoint.sends ++ [promised endpoint.socket] } rounds = _ :=
        ih (by exact h) hrounds
      simp only [flush, hpending, hsent, hrest, List.append_assoc, List.singleton_append,
        List.replicate_succ, List.map_cons]

/-- What a socket's `connect` does: the data of the listeners goes out, then what was pending, all
of it to the current socket. -/
theorem opened_eq (socket : ℕ) (listeners : List (List UInt8)) :
    endpoint.opened socket listeners =
      ({ endpoint with
          connected := true
          retryCount := 0
          pendingData := []
          sends := (endpoint.sends ++ List.replicate
            (listeners ++ endpoint.pendingData).length (promised endpoint.socket)).map
              (SendState.opened socket) },
        (listeners ++ endpoint.pendingData).map fun data => hand data endpoint.socket) := by
  have hheard : sendAll { endpoint with connected := true, retryCount := 0 } listeners = _ :=
    sendAll_of_connected rfl listeners
  rw [opened, hheard]
  have hflushed : flush { endpoint with
      connected := true, retryCount := 0
      sends := endpoint.sends ++ List.replicate listeners.length (promised endpoint.socket) }
    endpoint.pendingData.length = _ := flush_of_connected rfl rfl
  simp only [hflushed, List.append_assoc, List.replicate_append_replicate, List.length_append,
    List.map_append]

/-- The retries that `handleDisconnect` makes: one or none. -/
def retries (endpoint : NetworkEndpoint) : ℕ :=
  if endpoint.reconnect && endpoint.retryCount < endpoint.maxRetries then 1 else 0

/-- `handleDisconnect` starts a timer for each retry. -/
theorem handleDisconnect_eq (endpoint : NetworkEndpoint) :
    endpoint.handleDisconnect =
      ({ endpoint with
          connected := false
          retryCount := endpoint.retryCount + endpoint.retries
          timers := endpoint.timers + endpoint.retries },
        List.replicate endpoint.retries (.waits (endpoint.retryCount + 1))) := by
  rw [handleDisconnect, retries]
  split
  · rfl
  · rfl

/-! ## What an event does -/

/-- The event cannot happen, or it finds nothing to do. -/
def Idle (endpoint : NetworkEndpoint) : Event → Prop
  | .connect => False
  | .send _ => False
  | .disconnect => endpoint.socket = none
  | .opened socket _ => endpoint.sockets ≤ socket
  | .closed socket => endpoint.sockets ≤ socket
  | .failed socket => endpoint.sockets ≤ socket
  | .retry => endpoint.timers = 0
  | .ended => endpoint.ending = 0
  | .written place _ => endpoint.sends[place]? ≠ some .writing

/-- What an event does, case by case. -/
inductive Does (endpoint : NetworkEndpoint) : Event → NetworkEndpoint × List Effect → Prop
  | idle {event : Event} (h : endpoint.Idle event) : Does endpoint event (endpoint, [])
  | connect :
      Does endpoint .connect
        ({ endpoint with sockets := endpoint.sockets + 1, socket := some endpoint.sockets },
          [.opens endpoint.sockets])
  | writes {data : List UInt8} (hconnected : endpoint.connected = true) :
      Does endpoint (.send data)
        ({ endpoint with sends := endpoint.sends ++ [promised endpoint.socket] },
          [hand data endpoint.socket])
  | buffers {data : List UInt8} (hconnected : endpoint.connected = false)
      (hreconnect : endpoint.reconnect = true) :
      Does endpoint (.send data)
        ({ endpoint with
            pendingData := endpoint.pendingData ++ [data]
            sockets := endpoint.sockets + 1
            socket := some endpoint.sockets
            sends := endpoint.sends ++ [.buffered endpoint.sockets] },
          [.opens endpoint.sockets])
  | refuses {data : List UInt8} (hconnected : endpoint.connected = false)
      (hreconnect : endpoint.reconnect = false) :
      Does endpoint (.send data) ({ endpoint with sends := endpoint.sends ++ [.rejected] }, [])
  | disconnect {socket : ℕ} (hsocket : endpoint.socket = some socket) :
      Does endpoint .disconnect
        ({ endpoint with reconnect := false, ending := endpoint.ending + 1 }, [.ends socket])
  | opened {socket : ℕ} {listeners : List (List UInt8)} (hsocket : socket < endpoint.sockets) :
      Does endpoint (.opened socket listeners)
        ({ endpoint with
            connected := true
            retryCount := 0
            pendingData := []
            sends := (endpoint.sends ++ List.replicate
              (listeners ++ endpoint.pendingData).length (promised endpoint.socket)).map
                (SendState.opened socket) },
          (listeners ++ endpoint.pendingData).map fun data => hand data endpoint.socket)
  | closed {socket : ℕ} (hsocket : socket < endpoint.sockets) :
      Does endpoint (.closed socket)
        ({ endpoint with
            connected := false
            retryCount := endpoint.retryCount + endpoint.retries
            timers := endpoint.timers + endpoint.retries },
          List.replicate endpoint.retries (.waits (endpoint.retryCount + 1)))
  | failed {socket : ℕ} (hsocket : socket < endpoint.sockets) :
      Does endpoint (.failed socket)
        ({ endpoint with
            connected := false
            retryCount := endpoint.retryCount + endpoint.retries
            timers := endpoint.timers + endpoint.retries
            sends := endpoint.sends.map (SendState.failed socket) },
          List.replicate endpoint.retries (.waits (endpoint.retryCount + 1)))
  | retry (htimers : 0 < endpoint.timers) :
      Does endpoint .retry
        ({ endpoint with
            sockets := endpoint.sockets + 1
            socket := some endpoint.sockets
            timers := endpoint.timers - 1 },
          [.opens endpoint.sockets])
  | ended (hending : 0 < endpoint.ending) :
      Does endpoint .ended
        ({ endpoint with socket := none, connected := false, ending := endpoint.ending - 1 }, [])
  | written {place : ℕ} {error : Bool} (hplace : endpoint.sends[place]? = some .writing) :
      Does endpoint (.written place error)
        ({ endpoint with
            sends := endpoint.sends.set place (if error then .rejected else .resolved) }, [])

/-- An event does what `Does` says of it. -/
theorem does_step (endpoint : NetworkEndpoint) (event : Event) :
    Does endpoint event (endpoint.step event) := by
  cases event with
  | connect => exact .connect
  | send data =>
    rw [step]
    cases hconnected : endpoint.connected with
    | true =>
      rw [send_of_connected hconnected]
      exact .writes hconnected
    | false =>
      cases hreconnect : endpoint.reconnect with
      | true =>
        rw [send_of_reconnect hconnected hreconnect]
        exact .buffers hconnected hreconnect
      | false =>
        rw [send_of_not_reconnect hconnected hreconnect]
        exact .refuses hconnected hreconnect
  | disconnect =>
    rw [step, disconnect]
    split
    next socket hsocket => exact .disconnect hsocket
    next hsocket => exact .idle hsocket
  | opened socket listeners =>
    rw [step, opened_eq]
    split
    next hsocket => exact .opened hsocket
    next hsocket => exact .idle (Nat.not_lt.1 hsocket)
  | closed socket =>
    rw [step, handleDisconnect_eq]
    split
    next hsocket => exact .closed hsocket
    next hsocket => exact .idle (Nat.not_lt.1 hsocket)
  | failed socket =>
    rw [step, failed, handleDisconnect_eq]
    split
    next hsocket => exact .failed hsocket
    next hsocket => exact .idle (Nat.not_lt.1 hsocket)
  | retry =>
    rw [step]
    split
    next htimers => exact .retry htimers
    next htimers => exact .idle (Nat.eq_zero_of_not_pos htimers)
  | ended =>
    rw [step]
    split
    next hending => exact .ended hending
    next hending => exact .idle (Nat.eq_zero_of_not_pos hending)
  | written place error =>
    rw [step]
    split
    next hplace => exact .written hplace
    next hplace => exact .idle hplace

end NetworkEndpoint

end LibPolyCall.Node
