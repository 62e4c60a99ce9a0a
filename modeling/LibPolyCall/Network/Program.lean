import Mathlib.Data.List.Range
import Mathlib.Data.UInt
import Mathlib.Tactic.Common

/-!
# Network programs

The types of `network.h`, and `net_init_program` of `network.c` with what it calls. A `Host` is what
the system calls of one call of `net_init_program` come to. `netInitProgram_endpoints` states what
the program has where it gets an endpoint.
-/

namespace LibPolyCall.Network

/-- `NetworkProtocol`. -/
inductive NetworkProtocol where
  | tcp
  | udp
  | raw
deriving DecidableEq, Repr

/-- `NetworkRole`. -/
inductive NetworkRole where
  | client
  | server
  | peer
deriving DecidableEq, Repr

/-- `struct sockaddr_in`, with the port in the byte order of the host. -/
structure SockaddrIn where
  sinPort : UInt16
  sinAddr : UInt32
deriving DecidableEq, Repr

/-- `INADDR_ANY`. -/
def inaddrAny : UInt32 := 0

/-- `NetworkEndpoint`, without the strings and pointers that no step reads. -/
structure NetworkEndpoint where
  port : UInt16
  protocol : NetworkProtocol
  role : NetworkRole
  socketFd : ℤ
  addr : SockaddrIn
deriving DecidableEq, Repr

/-- `ClientState`. -/
structure ClientState where
  isActive : Bool
  socketFd : ℤ
  addr : SockaddrIn
deriving DecidableEq, Repr

/-- `NET_MAX_CLIENTS`. -/
def netMaxClients : ℕ := 10

/-- Which of the handlers of a program are set. -/
structure Handlers where
  onReceive : Bool
  onConnect : Bool
  onDisconnect : Bool
deriving DecidableEq, Repr

/-- `NetworkProgram`, without its locks. The list of the endpoints is empty where the pointer is
`NULL`. -/
structure NetworkProgram where
  endpoints : List NetworkEndpoint
  clients : Fin netMaxClients → ClientState
  running : Bool
  handlers : Handlers

/-- What the system calls come to: whether the endpoints can be allocated, which ports
`net_is_port_in_use` finds in use when a port is searched for and whether it does so for this port
in `net_init`, whether `net_release_port` succeeds, and the calls of `net_init` itself. -/
structure Host where
  allocates : Bool
  inUse : UInt16 → Bool
  inUseAtInit : Bool
  releases : Bool
  socket : ℤ
  setsockopt : Bool
  bind : Bool
  listen : Bool

/-- `find_available_port`, for `end_port` below 65535. -/
def findAvailablePort (inUse : UInt16 → Bool) (startPort endPort : UInt16) : UInt16 :=
  (((List.range' startPort.toNat (endPort.toNat + 1 - startPort.toNat)).map UInt16.ofNat).find?
    fun port => !inUse port).getD 0

/-- `net_init`: the endpoint as it is afterwards, or `none` for `false`. -/
def netInit (host : Host) (endpoint : NetworkEndpoint) : Option NetworkEndpoint :=
  if host.inUseAtInit ∧ ¬host.releases then none
  else if host.socket < 0 then none
  else if ¬host.setsockopt then none
  else
    let bound := { endpoint with
      socketFd := host.socket, addr := ⟨endpoint.port, inaddrAny⟩ }
    if endpoint.role = .server ∧ ¬host.bind then none
    else if endpoint.role = .server ∧ endpoint.protocol = .tcp ∧ ¬host.listen then none
    else some bound

/-- The program after `memset`, with `running` set, and with these endpoints. -/
def programWith (endpoints : List NetworkEndpoint) : NetworkProgram :=
  ⟨endpoints, fun _ => ⟨false, 0, ⟨0, 0⟩⟩, true, ⟨false, false, false⟩⟩

/-- The port that `net_init_program` chooses. -/
def chosenPort (host : Host) : UInt16 := findAvailablePort host.inUse 8080 8180

/-- `net_init_program`. -/
def netInitProgram (host : Host) : NetworkProgram :=
  if ¬host.allocates then programWith []
  else if chosenPort host = 0 then programWith []
  else
    match netInit host ⟨chosenPort host, .tcp, .server, 0, ⟨0, 0⟩⟩ with
    | none => programWith []
    | some endpoint => programWith [endpoint]

/-- `program->endpoints && program->count > 0` after `net_init_program`. -/
def Host.Starts (host : Host) : Prop := (netInitProgram host).endpoints ≠ []

/-- Whether the program starts can be decided. -/
instance (host : Host) : Decidable host.Starts := inferInstanceAs (Decidable (_ ≠ _))

/-- What `net_init` leaves in an endpoint: the socket, and the endpoint's port as the bound one. -/
theorem netInit_eq_some {host : Host} {endpoint bound : NetworkEndpoint}
    (h : netInit host endpoint = some bound) :
    0 ≤ host.socket ∧
      bound = { endpoint with socketFd := host.socket, addr := ⟨endpoint.port, inaddrAny⟩ } := by
  rw [netInit] at h
  dsimp only at h
  split_ifs at h with _ hsocket
  exact ⟨Int.not_lt.1 hsocket, (Option.some.inj h).symm⟩

/-- The endpoint of a program that has one has the chosen port and listens on it. -/
theorem netInitProgram_cases (host : Host) :
    netInitProgram host = programWith [] ∨
      0 ≤ host.socket ∧ netInitProgram host = programWith
        [⟨chosenPort host, .tcp, .server, host.socket, ⟨chosenPort host, inaddrAny⟩⟩] := by
  by_cases hearly : ¬host.allocates ∨ chosenPort host = 0
  · left
    rcases hearly with h | h
    · exact if_pos h
    · rw [netInitProgram, if_pos h, ite_self]
  · obtain ⟨hallocates, hport⟩ := not_or.1 hearly
    rw [netInitProgram, if_neg hallocates, if_neg hport]
    cases h : netInit host ⟨chosenPort host, .tcp, .server, 0, ⟨0, 0⟩⟩ with
    | none => exact .inl rfl
    | some bound =>
      obtain ⟨hsocket, rfl⟩ := netInit_eq_some h
      exact .inr ⟨hsocket, rfl⟩

/-- The program of a start that succeeds. -/
theorem netInitProgram_of_starts {host : Host} (h : host.Starts) :
    0 ≤ host.socket ∧ netInitProgram host = programWith
      [⟨chosenPort host, .tcp, .server, host.socket, ⟨chosenPort host, inaddrAny⟩⟩] := by
  rcases netInitProgram_cases host with hempty | hstarted
  · exact absurd (by rw [hempty]; rfl) h
  · exact hstarted

end LibPolyCall.Network
