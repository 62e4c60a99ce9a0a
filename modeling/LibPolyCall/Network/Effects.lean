import LibPolyCall.Network.Run

/-!
# What the network loop does

The functions of `net_run` without their locks: what each does to the program and which calls it
makes. Each theorem shows that the function with its locks does this and leaves the locks as they
were, wherever the locks that it takes are available. `netRun_eq_thenServe` puts them
together up to the loop over the data of the clients, whose rounds take `clients_lock` a second
time.
-/

namespace LibPolyCall.Network

open Locking

variable {kind : Kind} {held : List Lock}

/-- The call of a handler leaves the program. -/
@[simp] theorem NetworkState.handle_program (s : NetworkState) (present : Bool) (c : Call) :
    (s.handle present c).program = s.program := by
  rw [handle]
  split_ifs <;> rfl

/-- The locks of the clients can be taken. -/
def ClientsFree (kind : Kind) (held : List Lock) : Prop := ∀ i, Available kind held (.client i)

/-- Recursive mutexes of clients can always be taken. -/
theorem clientsFree_recursive (held : List Lock) : ClientsFree .recursive held := fun _ =>
  available_recursive held _

/-- While the lock of the table is held, those of the clients can still be taken. -/
theorem ClientsFree.cons_clients (h : ClientsFree kind held) :
    ClientsFree kind (.clients :: held) := fun i => (h i).cons (by simp)

section AddClient

/-- The first slot of the list without an active client. -/
def freeSlot (program : NetworkProgram) (is : List (Fin netMaxClients)) :
    Option (Fin netMaxClients) :=
  is.find? fun i => !(program.clients i).isActive

/-- The free slot has no active client. -/
theorem inactive_of_freeSlot {program : NetworkProgram} {is : List (Fin netMaxClients)}
    {i : Fin netMaxClients} (h : freeSlot program is = some i) :
    (program.clients i).isActive = false := by
  simpa using List.find?_some h

/-- What `net_add_client` does. -/
def addClient (socketFd : ℤ) (addr : SockaddrIn) (is : List (Fin netMaxClients))
    (s : NetworkState) : Bool × NetworkState :=
  match freeSlot s.program is with
  | none => (false, s)
  | some i => (true, s.setClient i ⟨true, socketFd, addr⟩)

/-- The search of `net_add_client` stores the client in the first free slot of the list. -/
theorem addFrom_does (h : ClientsFree kind held) (socketFd : ℤ) (addr : SockaddrIn)
    (s : NetworkState) : ∀ is : List (Fin netMaxClients),
    Does (addFrom kind socketFd addr is) held s (addClient socketFd addr is s).1
      (addClient socketFd addr is s).2
  | [] => does_pure held s false
  | i :: is => by
    have hslot := Does.critical (h i) (does_step (addSlot socketFd addr i) (.client i :: held) s)
    refine hslot.bind ?_
    rw [addSlot, addClient, freeSlot, List.find?_cons]
    cases hactive : (s.program.clients i).isActive with
    | false => exact does_pure held _ true
    | true => exact addFrom_does h socketFd addr s is

/-- `net_add_client` stores the client in the first free slot. -/
theorem netAddClient_does (hclients : Available kind held .clients) (h : ClientsFree kind held)
    (socketFd : ℤ) (addr : SockaddrIn) (s : NetworkState) :
    Does (netAddClient kind socketFd addr) held s (addClient socketFd addr slots s).1
      (addClient socketFd addr slots s).2 :=
  Does.critical hclients (addFrom_does h.cons_clients socketFd addr s slots)

end AddClient

/-- `net_remove_client` removes the client from every slot that has its descriptor. -/
theorem netRemoveClient_does (hclients : Available kind held .clients) (h : ClientsFree kind held)
    (socketFd : ℤ) (s : NetworkState) :
    Does (netRemoveClient kind socketFd) held s () (slots.foldl (removeSlot socketFd) s) := by
  have hslot : ∀ i s, Does (critical kind (.client i) (update fun s => removeSlot socketFd s i))
      (.clients :: held) s () (removeSlot socketFd s i) := fun i s =>
    Does.critical (h.cons_clients i) (does_update (fun s => removeSlot socketFd s i) _ s)
  exact Does.critical hclients (Does.forM hslot slots s)

section Request

/-- The descriptors that `net_run` waits for, with the greatest. -/
def requested (program : NetworkProgram) (socketFd : ℤ) : List ℤ × ℤ :=
  slots.foldl (fun readfds i => requestSlot readfds (program.clients i)) ([socketFd], socketFd)

/-- The sockets requested are those of the program. -/
theorem requestClients_does (hclients : Available kind held .clients) (h : ClientsFree kind held)
    (socketFd : ℤ) (s : NetworkState) :
    Does (requestClients kind socketFd) held s (requested s.program socketFd) s := by
  have hslot : ∀ readfds i, Does
      (critical kind (.client i) (view fun s => requestSlot readfds (s.program.clients i)))
      (.clients :: held) s (requestSlot readfds (s.program.clients i)) s := fun readfds i =>
    Does.critical (h.cons_clients i)
      (does_view (fun s => requestSlot readfds (s.program.clients i)) _ s)
  exact Does.critical hclients (Does.foldlM hslot slots ([socketFd], socketFd))

/-- The loop adds the descriptors of the active clients, and its maximum bounds what it adds. -/
theorem mem_foldl_requestSlot (clients : Fin netMaxClients → ClientState) (fd : ℤ) :
    ∀ (is : List (Fin netMaxClients)) (readfds : List ℤ × ℤ), (∀ fd ∈ readfds.1, fd ≤ readfds.2) →
      let loop := is.foldl (fun readfds i => requestSlot readfds (clients i)) readfds
      (fd ∈ loop.1 ↔ fd ∈ readfds.1 ∨
        ∃ i ∈ is, (clients i).isActive ∧ 0 < (clients i).socketFd ∧ fd = (clients i).socketFd) ∧
      ∀ fd ∈ loop.1, fd ≤ loop.2
  | [], readfds, hmax => ⟨by simp, hmax⟩
  | i :: is, readfds, hmax => by
    have hmax' : ∀ fd ∈ (requestSlot readfds (clients i)).1,
        fd ≤ (requestSlot readfds (clients i)).2 := by
      rw [requestSlot]
      split_ifs
      · rintro fd (_ | ⟨_, hfd⟩)
        · exact le_max_right _ _
        · exact (hmax fd hfd).trans (le_max_left _ _)
      · exact hmax
    obtain ⟨hmem, hbound⟩ := mem_foldl_requestSlot clients fd is _ hmax'
    refine ⟨hmem.trans ?_, hbound⟩
    -- What the first slot adds is its own descriptor.
    rw [List.exists_mem_cons_iff, ← or_assoc]
    refine or_congr_left ?_
    rw [requestSlot]
    split_ifs with hactive
    · rw [List.mem_cons, or_comm]
      simp [hactive]
    · simp only [← and_assoc, hactive, false_and, or_false]

/-- What is left after `select`: of the endpoint and the active clients, those that are ready. -/
theorem mem_selected_iff (ready : ℤ → Bool) (program : NetworkProgram) (socketFd fd : ℤ) :
    fd ∈ selected ready (requested program socketFd) ↔ ready fd ∧ (fd = socketFd ∨
      ∃ i, (program.clients i).isActive ∧ 0 < (program.clients i).socketFd ∧
        fd = (program.clients i).socketFd) := by
  obtain ⟨hmem, hbound⟩ := mem_foldl_requestSlot program.clients fd slots ([socketFd], socketFd)
    (by simp)
  rw [List.mem_singleton] at hmem
  simp only [slots, List.mem_finRange, true_and] at hmem
  rw [selected, List.mem_filter, Bool.and_eq_true, decide_eq_true_eq, requested, slots]
  constructor
  · rintro ⟨hfd, -, hready⟩
    exact ⟨hready, hmem.1 hfd⟩
  · rintro ⟨hready, hfd⟩
    have hfd := hmem.2 hfd
    exact ⟨hfd, Int.lt_add_one_of_le (hbound fd hfd), hready⟩

end Request

section Accept

/-- What `net_run` does for a new connection; `false` where it returns. -/
def acceptEffect (round : Round) (s : NetworkState) : Bool × NetworkState :=
  if 0 ≤ round.accept then
    let accepted := s.call (.accept round.accept)
    if ¬round.setNonblocking then (false, accepted.call (.close round.accept))
    else
      match freeSlot s.program slots with
      | none => (true, accepted.call (.close round.accept))
      | some i => (true, (accepted.setClient i ⟨true, round.accept, round.clientAddr⟩).handle
          s.program.handlers.onConnect (.onConnect round.accept round.clientAddr))
  else (true, s)

/-- `accept` fails, or the new descriptor is closed because it cannot be made non-blocking or no
slot is free, or it is put into the first free slot. -/
theorem acceptEffect_cases (round : Round) (s : NetworkState) :
    (¬0 ≤ round.accept ∧ acceptEffect round s = (true, s)) ∨
    (0 ≤ round.accept ∧ ¬round.setNonblocking ∧ acceptEffect round s =
      (false, (s.call (.accept round.accept)).call (.close round.accept))) ∨
    (0 ≤ round.accept ∧ round.setNonblocking ∧ freeSlot s.program slots = none ∧
      acceptEffect round s = (true, (s.call (.accept round.accept)).call (.close round.accept))) ∨
    ∃ i, 0 ≤ round.accept ∧ round.setNonblocking ∧ freeSlot s.program slots = some i ∧
      acceptEffect round s = (true, ((s.call (.accept round.accept)).setClient i
        ⟨true, round.accept, round.clientAddr⟩).handle s.program.handlers.onConnect
          (.onConnect round.accept round.clientAddr)) := by
  rw [acceptEffect]
  by_cases haccept : 0 ≤ round.accept
  · rw [if_pos haccept]
    by_cases hblocking : ¬round.setNonblocking
    · rw [if_pos hblocking]
      exact .inr (.inl ⟨haccept, hblocking, rfl⟩)
    · rw [if_neg hblocking]
      have hnonblocking := not_not.1 hblocking
      cases hfree : freeSlot s.program slots with
      | none => exact .inr (.inr (.inl ⟨haccept, hnonblocking, rfl, rfl⟩))
      | some i => exact .inr (.inr (.inr ⟨i, haccept, hnonblocking, rfl, rfl⟩))
  · rw [if_neg haccept]
    exact .inl ⟨haccept, rfl⟩

/-- Accepting a client does what it does without the locks. -/
theorem acceptClient_does (hclients : Available kind held .clients) (h : ClientsFree kind held)
    (round : Round) (s : NetworkState) :
    Does (acceptClient kind round) held s (acceptEffect round s).1 (acceptEffect round s).2 := by
  rw [acceptClient, acceptEffect]
  by_cases haccept : 0 ≤ round.accept
  · rw [if_pos haccept, if_pos haccept]
    refine (does_update _ held s).bind ?_
    by_cases hblocking : ¬round.setNonblocking
    · rw [if_pos hblocking, if_pos hblocking]
      exact (does_update _ held _).bind (does_pure held _ false)
    · rw [if_neg hblocking, if_neg hblocking]
      refine (netAddClient_does hclients h round.accept round.clientAddr _).bind ?_
      refine (does_update _ held _).bind ?_
      rw [addClient, show (s.call (.accept round.accept)).program = s.program from rfl]
      cases freeSlot s.program slots with
      | none => exact does_pure held _ true
      | some i => exact does_pure held _ true
  · rw [if_neg haccept, if_neg haccept]
    exact does_pure held s true

end Accept

section Serve

/-- `bytes_read <= 0`: an error, or the end of the connection. -/
def NoData (received : Option (List UInt8)) : Prop := received = none ∨ received = some []

/-- What a round of the loop over the data of the clients does. -/
def serveSlot (round : Round) (readfds : List ℤ) (s : NetworkState) (i : Fin netMaxClients) :
    NetworkState :=
  let client := s.program.clients i
  if Readable readfds client then
    match round.recv i with
    | some (byte :: bytes) =>
      s.handle s.program.handlers.onReceive
        (.onReceive client.socketFd client.addr (byte :: bytes))
    | _ =>
      slots.foldl (removeSlot client.socketFd)
        (s.handle s.program.handlers.onDisconnect (.onDisconnect client.socketFd client.addr))
  else s

/-- A round of the loop leaves the state as it is, passes data on, or removes a client that has
disconnected. -/
theorem serveSlot_cases (round : Round) (readfds : List ℤ) (s : NetworkState)
    (i : Fin netMaxClients) :
    serveSlot round readfds s i = s ∨
    (∃ data, serveSlot round readfds s i = s.handle s.program.handlers.onReceive
      (.onReceive (s.program.clients i).socketFd (s.program.clients i).addr data)) ∨
    ((Readable readfds (s.program.clients i) ∧ NoData (round.recv i)) ∧
      serveSlot round readfds s i = slots.foldl (removeSlot (s.program.clients i).socketFd)
        (s.handle s.program.handlers.onDisconnect
          (.onDisconnect (s.program.clients i).socketFd (s.program.clients i).addr))) := by
  rw [serveSlot]
  split_ifs with hread
  · cases hrecv : round.recv i with
    | none => exact .inr (.inr ⟨⟨hread, .inl rfl⟩, rfl⟩)
    | some data =>
      cases data with
      | nil => exact .inr (.inr ⟨⟨hread, .inr rfl⟩, rfl⟩)
      | cons byte bytes => exact .inr (.inl ⟨byte :: bytes, rfl⟩)
  · exact .inl rfl

/-- A round of the loop does this unless a client disconnects and the mutexes are normal. -/
theorem serveClient_does {round : Round} {readfds : List ℤ} {s : NetworkState}
    {i : Fin netMaxClients} (h : ClientsFree kind held)
    (hkind : Readable readfds (s.program.clients i) ∧ NoData (round.recv i) → kind = .recursive) :
    Does (serveClient kind round readfds i) held s () (serveSlot round readfds s i) := by
  refine Does.critical (h i) ((does_view (fun s => s.program.clients i) _ s).bind ?_)
  rw [serveSlot]
  by_cases hread : Readable readfds (s.program.clients i)
  · have hremove (hdata : NoData (round.recv i)) (s' : NetworkState) :=
      @netRemoveClient_does kind (.client i :: held) (.inl (hkind ⟨hread, hdata⟩))
        (fun _ => .inl (hkind ⟨hread, hdata⟩)) (s.program.clients i).socketFd s'
    rw [if_pos hread, if_pos hread]
    cases hrecv : round.recv i with
    | none => exact (does_update _ _ s).bind (hremove (.inl hrecv) _)
    | some data =>
      cases data with
      | nil => exact (does_update _ _ s).bind (hremove (.inr hrecv) _)
      | cons byte bytes => exact does_update _ _ s
  · rw [if_neg hread, if_neg hread]
    exact does_pure _ s ()

end Serve

section Run

/-- What `net_run` does before the loop over the data of the clients, and the descriptors of
`readfds` there, or `none` where it returns before. -/
def beforeClients (round : Round) (s : NetworkState) : Option (List ℤ) × NetworkState :=
  if ¬s.program.running then (none, s)
  else
    match s.program.endpoints with
    | [] => (none, s)
    | endpoint :: _ =>
      if endpoint.socketFd ≤ 0 then (none, s)
      else
        match round.select with
        | none => (none, s)
        | some ready =>
          let readfds := selected ready (requested s.program endpoint.socketFd)
          let accepted := if endpoint.socketFd ∈ readfds then acceptEffect round s else (true, s)
          (if accepted.1 then some readfds else none, accepted.2)

/-- What is left of `net_run` after `beforeClients`. -/
def thenServe (kind : Kind) (round : Round) : Option (List ℤ) → Net Unit
  | none => pure ()
  | some readfds => serveClients kind round readfds

/-- `net_run` does what `beforeClients` states, and then goes over the data of the clients. -/
theorem netRun_eq_thenServe (hclients : Available kind held .clients) (h : ClientsFree kind held)
    (round : Round) (s : NetworkState) :
    netRun kind round ⟨held, s⟩ =
      thenServe kind round (beforeClients round s).1 ⟨held, (beforeClients round s).2⟩ := by
  rw [netRun, (does_view NetworkState.program held s).bind_eq, beforeClients]
  by_cases hrunning : ¬s.program.running
  · rw [if_pos hrunning, if_pos hrunning]
    rfl
  rw [if_neg hrunning, if_neg hrunning]
  cases s.program.endpoints with
  | nil => rfl
  | cons endpoint _ =>
    dsimp only
    by_cases hsocket : endpoint.socketFd ≤ 0
    · rw [if_pos hsocket, if_pos hsocket]
      rfl
    -- The locks taken up to here are released again before the next call.
    rw [if_neg hsocket, if_neg hsocket,
      (requestClients_does hclients h endpoint.socketFd s).bind_eq]
    cases round.select with
    | none => rfl
    | some ready =>
      dsimp only
      by_cases hlistening : endpoint.socketFd ∈
          selected ready (requested s.program endpoint.socketFd)
      · rw [if_pos hlistening, if_pos hlistening, (acceptClient_does hclients h round s).bind_eq]
        cases (acceptEffect round s).1 <;> rfl
      · rw [if_neg hlistening, if_neg hlistening, (does_pure held s true).bind_eq]
        rfl

/-- What `net_run` does with recursive mutexes. -/
def netRunEffect (round : Round) (s : NetworkState) : NetworkState :=
  match (beforeClients round s).1 with
  | none => (beforeClients round s).2
  | some readfds => slots.foldl (serveSlot round readfds) (beforeClients round s).2

/-- With recursive mutexes `net_run` does what it does without the locks. -/
theorem netRun_recursive_does (round : Round) (held : List Lock) (s : NetworkState) :
    Does (netRun .recursive round) held s () (netRunEffect round s) := by
  rw [Does, netRun_eq_thenServe (available_recursive held _) (clientsFree_recursive held),
    netRunEffect]
  cases (beforeClients round s).1 with
  | none => rfl
  | some readfds =>
    have hslot : ∀ i s, Does (serveClient .recursive round readfds i) (.clients :: held) s ()
        (serveSlot round readfds s i) := fun i s =>
      serveClient_does (clientsFree_recursive _) fun _ => rfl
    exact Does.critical (available_recursive held _) (Does.forM hslot slots _)

end Run

section Cleanup

/-- What `net_cleanup_program` does. -/
def cleanupEffect (s : NetworkState) : NetworkState :=
  let stopped := { s with program := { s.program with running := false } }
  let closed := (List.range s.program.endpoints.length).foldl closeEndpoint stopped
  slots.foldl cleanupSlot { closed with program := { closed.program with endpoints := [] } }

/-- With recursive mutexes so does `net_cleanup_program`. -/
theorem netCleanupProgram_recursive_does (held : List Lock) (s : NetworkState) :
    Does (netCleanupProgram .recursive) held s () (cleanupEffect s) := by
  have hclose : ∀ i s, Does (netClose .recursive i) (.clients :: held) s () (closeEndpoint s i) :=
    fun i s => Does.critical (available_recursive _ _) (does_update _ _ s)
  have hclient : ∀ i s, Does (netCleanupClientState .recursive i) (.clients :: held) s ()
      (cleanupSlot s i) := fun i s =>
    Does.critical (available_recursive _ _) (does_update _ _ s)
  refine Does.critical (available_recursive held _) ((does_update _ _ s).bind ?_)
  refine (does_view (fun s : NetworkState => s.program.endpoints.length) _ _).bind ?_
  refine (Does.forM hclose _ _).bind ((does_update _ _ _).bind ?_)
  exact Does.forM hclient slots _

end Cleanup

end LibPolyCall.Network
