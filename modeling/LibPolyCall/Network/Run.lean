import Mathlib.Data.Fintype.Basic
import LibPolyCall.Library.Locking
import LibPolyCall.Network.Program

/-!
# The network loop

`net_run`, `net_cleanup_program` and what they call, of `network.c`, as computations of a thread
that takes the locks of the program. Beside the program, the state has the calls that the thread has
made so far: of `accept` and `close`, and of the program's handlers. A `Round` is what the system
calls of one call of `net_run` come to.
-/

namespace LibPolyCall.Network

open Locking

/-- The mutexes of a program: `clients_lock`, those of its clients, and those of its endpoints. -/
inductive Lock where
  | clients
  | client (i : Fin netMaxClients)
  | endpoint (i : ℕ)
deriving DecidableEq, Repr

/-- The calls that the thread makes: `accept` with the descriptor that it returns, `close`, and the
handlers. -/
inductive Call where
  | accept (fd : ℤ)
  | close (fd : ℤ)
  | onConnect (fd : ℤ) (addr : SockaddrIn)
  | onReceive (fd : ℤ) (addr : SockaddrIn) (data : List UInt8)
  | onDisconnect (fd : ℤ) (addr : SockaddrIn)
deriving DecidableEq, Repr

/-- A program and the calls made so far. -/
structure NetworkState where
  program : NetworkProgram
  calls : List Call

namespace NetworkState

/-- The state after a call. -/
def call (s : NetworkState) (c : Call) : NetworkState := { s with calls := s.calls ++ [c] }

/-- The state after the call of a handler, if it is set. -/
def handle (s : NetworkState) (present : Bool) (c : Call) : NetworkState :=
  if present then s.call c else s

/-- The state with this client in the slot. -/
def setClient (s : NetworkState) (i : Fin netMaxClients) (client : ClientState) : NetworkState :=
  { s with program := { s.program with clients := Function.update s.program.clients i client } }

end NetworkState

/-- What the thread of the network does. -/
abbrev Net := ThreadM Lock NetworkState

/-- The slots in the order of the loops over them. -/
def slots : List (Fin netMaxClients) := List.finRange netMaxClients

/-- The body of the loop of `net_add_client`: whether the slot takes the client. -/
def addSlot (socketFd : ℤ) (addr : SockaddrIn) (i : Fin netMaxClients) (s : NetworkState) :
    Bool × NetworkState :=
  if ¬(s.program.clients i).isActive then (true, s.setClient i ⟨true, socketFd, addr⟩)
  else (false, s)

/-- The loop of `net_add_client` over the slots that are left. -/
def addFrom (kind : Kind) (socketFd : ℤ) (addr : SockaddrIn) : List (Fin netMaxClients) → Net Bool
  | [] => return false
  | i :: is => do
    let added ← critical kind (.client i) (step (addSlot socketFd addr i))
    if added then return true
    else addFrom kind socketFd addr is

/-- `net_add_client`. -/
def netAddClient (kind : Kind) (socketFd : ℤ) (addr : SockaddrIn) : Net Bool :=
  critical kind .clients (addFrom kind socketFd addr slots)

/-- The body of the loop of `net_remove_client`. -/
def removeSlot (socketFd : ℤ) (s : NetworkState) (i : Fin netMaxClients) : NetworkState :=
  let client := s.program.clients i
  if client.isActive ∧ client.socketFd = socketFd then
    (s.call (.close client.socketFd)).setClient i
      { client with isActive := false, socketFd := 0 }
  else s

/-- `net_remove_client`. -/
def netRemoveClient (kind : Kind) (socketFd : ℤ) : Net Unit :=
  critical kind .clients
    (slots.forM fun i => critical kind (.client i) (update fun s => removeSlot socketFd s i))

/-- What the system calls of one call of `net_run` come to: `none` for a `select` that fails, else
the descriptors that are ready, and for each slot the bytes that `recv` gives, `none` for an
error. -/
structure Round where
  select : Option (ℤ → Bool)
  accept : ℤ
  clientAddr : SockaddrIn
  setNonblocking : Bool
  recv : Fin netMaxClients → Option (List UInt8)

/-- The body of the loop that adds the active clients to `readfds`, with `max_fd`. -/
def requestSlot (readfds : List ℤ × ℤ) (client : ClientState) : List ℤ × ℤ :=
  if client.isActive ∧ 0 < client.socketFd then
    (client.socketFd :: readfds.1, max readfds.2 client.socketFd)
  else readfds

/-- The loop that adds the active clients to `readfds`, which has the socket of the endpoint. -/
def requestClients (kind : Kind) (socketFd : ℤ) : Net (List ℤ × ℤ) :=
  critical kind .clients
    (slots.foldlM (fun readfds i =>
      critical kind (.client i) (view fun s => requestSlot readfds (s.program.clients i)))
      ([socketFd], socketFd))

/-- The descriptors that `select` leaves in `readfds`. -/
def selected (ready : ℤ → Bool) (readfds : List ℤ × ℤ) : List ℤ :=
  readfds.1.filter fun fd => fd < readfds.2 + 1 && ready fd

/-- The part of `net_run` that handles new connections, for a listening socket that is ready. It
gives `false` where `net_run` returns. -/
def acceptClient (kind : Kind) (round : Round) : Net Bool := do
  if 0 ≤ round.accept then
    update fun s => s.call (.accept round.accept)
    if ¬round.setNonblocking then
      update fun s => s.call (.close round.accept)
      return false
    else
      let added ← netAddClient kind round.accept round.clientAddr
      update fun s =>
        if added then
          s.handle s.program.handlers.onConnect (.onConnect round.accept round.clientAddr)
        else s.call (.close round.accept)
      return true
  else return true

/-- The client of the slot is to be read. -/
def Readable (readfds : List ℤ) (client : ClientState) : Prop :=
  client.isActive ∧ client.socketFd ∈ readfds

/-- Whether a client is to be read can be decided. -/
instance (readfds : List ℤ) (client : ClientState) : Decidable (Readable readfds client) :=
  inferInstanceAs (Decidable (_ ∧ _))

/-- The body of the loop that handles the data of the clients. -/
def serveClient (kind : Kind) (round : Round) (readfds : List ℤ) (i : Fin netMaxClients) :
    Net Unit :=
  critical kind (.client i) do
    let client ← view fun s => s.program.clients i
    if Readable readfds client then
      match round.recv i with
      | some (byte :: bytes) =>
        update fun s => s.handle s.program.handlers.onReceive
          (.onReceive client.socketFd client.addr (byte :: bytes))
      | _ => do
        update fun s => s.handle s.program.handlers.onDisconnect
          (.onDisconnect client.socketFd client.addr)
        netRemoveClient kind client.socketFd
    else return ()

/-- The loop that handles the data of the clients. -/
def serveClients (kind : Kind) (round : Round) (readfds : List ℤ) : Net Unit :=
  critical kind .clients (slots.forM (serveClient kind round readfds))

/-- `net_run`. -/
def netRun (kind : Kind) (round : Round) : Net Unit := do
  let program ← view NetworkState.program
  if ¬program.running then return ()
  else
    match program.endpoints with
    | [] => return ()
    | endpoint :: _ =>
      if endpoint.socketFd ≤ 0 then return ()
      else do
        let requested ← requestClients kind endpoint.socketFd
        match round.select with
        | none => return ()
        | some ready => do
          let readfds := selected ready requested
          let goesOn ← if endpoint.socketFd ∈ readfds then acceptClient kind round
            else pure true
          if goesOn then serveClients kind round readfds
          else return ()

/-- `net_close` of the endpoint at this position. -/
def closeEndpoint (s : NetworkState) (i : ℕ) : NetworkState :=
  match s.program.endpoints[i]? with
  | none => s
  | some endpoint =>
    if 0 < endpoint.socketFd then
      { program := { s.program with
          endpoints := s.program.endpoints.set i { endpoint with socketFd := 0 } },
        calls := s.calls ++ [.close endpoint.socketFd] }
    else s

/-- `net_close`. -/
def netClose (kind : Kind) (i : ℕ) : Net Unit :=
  critical kind (.endpoint i) (update fun s => closeEndpoint s i)

/-- The critical section of `net_cleanup_client_state`. -/
def cleanupSlot (s : NetworkState) (i : Fin netMaxClients) : NetworkState :=
  let client := s.program.clients i
  let closed := if 0 < client.socketFd then s.call (.close client.socketFd) else s
  closed.setClient i
    { client with
      isActive := false, socketFd := if 0 < client.socketFd then 0 else client.socketFd }

/-- `net_cleanup_client_state` of the slot. -/
def netCleanupClientState (kind : Kind) (i : Fin netMaxClients) : Net Unit :=
  critical kind (.client i) (update fun s => cleanupSlot s i)

/-- `net_cleanup_program`. -/
def netCleanupProgram (kind : Kind) : Net Unit :=
  critical kind .clients do
    update fun s => { s with program := { s.program with running := false } }
    let count ← view fun s => s.program.endpoints.length
    (List.range count).forM (netClose kind)
    update fun s => { s with program := { s.program with endpoints := [] } }
    slots.forM (netCleanupClientState kind)

end LibPolyCall.Network
