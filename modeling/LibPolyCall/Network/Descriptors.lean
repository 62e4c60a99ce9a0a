import LibPolyCall.Library.Ledger
import LibPolyCall.Library.Steps
import LibPolyCall.Network.Effects

/-!
# The descriptors of the clients

The calls of `accept` and `close` are a ledger of the descriptors. With recursive mutexes, a run of
`net_run` keeps the descriptors that are out in exactly one slot each (`Accounted`), as long as it
stores no descriptor 0, which `net_run` and `net_cleanup_client_state` take for no descriptor at
all. `accepted_closed_once` follows a run to its end in `net_cleanup_program`.
-/

namespace LibPolyCall.Network

open Locking

/-- The entry of a call in the ledger of the descriptors. -/
def Call.use : Call → Option (Ledger.Use ℤ)
  | accept fd => some (.acquire fd)
  | close fd => some (.release fd)
  | _ => none

/-- The ledger of the descriptors. -/
def uses (calls : List Call) : List (Ledger.Use ℤ) := calls.filterMap Call.use

/-- The active client of the slot has this descriptor. -/
def Stores (program : NetworkProgram) (i : Fin netMaxClients) (fd : ℤ) : Prop :=
  (program.clients i).isActive ∧ (program.clients i).socketFd = fd

/-- The descriptors other than these sockets are out in the ledger exactly if a slot stores them,
and the slots store different ones, all positive. -/
structure Accounted (sockets : List ℤ) (s : NetworkState) : Prop where
  accounts : ∀ fd ∉ sockets,
    Ledger.Accounts fd (uses s.calls) (∃ i, Stores s.program i fd)
  unique : ∀ {i j fd}, Stores s.program i fd → Stores s.program j fd → i = j
  positive : ∀ {i}, (s.program.clients i).isActive → 0 < (s.program.clients i).socketFd
  clear : ∀ {i}, ¬(s.program.clients i).isActive → (s.program.clients i).socketFd = 0
  accepted : ∀ {fd}, .accept fd ∈ s.calls → fd ∉ sockets

section Keeps

variable {sockets : List ℤ} {s : NetworkState}

/-- A call that acquires or releases a descriptor adds this use to the ledger. -/
theorem uses_concat (calls : List Call) (c : Call) :
    uses (calls ++ [c]) = uses calls ++ c.use.toList := by
  rw [uses, uses, List.filterMap_append]
  cases h : c.use <;> simp [h]

/-- The call of a handler makes no difference. -/
theorem Accounted.handle (h : Accounted sockets s) (present : Bool) {c : Call} (hc : c.use = none) :
    Accounted sockets (s.handle present c) := by
  rw [NetworkState.handle]
  split_ifs
  · refine ⟨fun fd hfd => ?_, h.unique, h.positive, h.clear, fun {fd} hfd => ?_⟩
    · rw [NetworkState.call, uses_concat, hc, Option.toList_none, List.append_nil]
      exact h.accounts fd hfd
    · rcases List.mem_append.1 hfd with hfd | hfd
      · exact h.accepted hfd
      · obtain rfl := List.mem_singleton.1 hfd
        cases hc
  · exact h

/-- A slot stores the descriptor of the client written into it, and the others what they did. -/
theorem stores_setClient {s : NetworkState} {i j : Fin netMaxClients} {client : ClientState}
    {fd : ℤ} : Stores (s.setClient i client).program j fd ↔
      j = i ∧ client.isActive ∧ client.socketFd = fd ∨ j ≠ i ∧ Stores s.program j fd := by
  rw [Stores, NetworkState.setClient]
  dsimp only
  by_cases hj : j = i
  · subst hj
    simp
  · simp [hj, Stores]

/-- A client in a slot that was free has a descriptor that no slot stores. -/
theorem Accounted.storeSlot (h : Accounted sockets s) {i : Fin netMaxClients} {fd : ℤ}
    (hfree : (s.program.clients i).isActive = false) (hfd : fd ∉ sockets) (hpos : 0 < fd)
    (hstored : ¬∃ j, Stores s.program j fd) (addr : SockaddrIn) :
    Accounted sockets ((s.call (.accept fd)).setClient i ⟨true, fd, addr⟩) := by
  have hother : ∀ {j fd'}, Stores s.program j fd' → j ≠ i := fun hj hji => by
    rw [Stores, hji, hfree] at hj
    exact Bool.false_ne_true hj.1
  refine ⟨fun fd' hfd' => ?_, fun {j k fd'} hj hk => ?_, fun {j} hj => ?_, fun {j} hj => ?_,
    fun {fd'} hfd' => ?_⟩
  · show Ledger.Accounts fd' (uses (s.calls ++ [.accept fd])) _
    rw [uses_concat]
    -- The new descriptor gets an owner, and the others keep theirs.
    by_cases heq : fd = fd'
    · subst heq
      exact (h.accounts fd hfd).acquire hstored ⟨i, stores_setClient.2 (.inl ⟨rfl, rfl, rfl⟩)⟩
    · refine ((h.accounts fd' hfd').other (u := .acquire fd) heq).congr
        (exists_congr fun j => ?_)
      rw [stores_setClient]
      exact ⟨fun hj => .inr ⟨hother hj, hj⟩, fun hj => (hj.resolve_left fun hj => heq hj.2.2).2⟩
  · rw [stores_setClient] at hj hk
    -- One descriptor in two slots: the new one was in no slot before.
    rcases hj with ⟨rfl, -, hjfd⟩ | ⟨-, hj⟩ <;> rcases hk with ⟨rfl, -, hkfd⟩ | ⟨-, hk⟩
    · rfl
    · exact absurd ⟨k, hk.1, hk.2.trans hjfd.symm⟩ hstored
    · exact absurd ⟨j, hj.1, hj.2.trans hkfd.symm⟩ hstored
    · exact h.unique hj hk
  · have hj : Stores _ j _ := ⟨hj, rfl⟩
    rcases stores_setClient.1 hj with ⟨-, -, hj⟩ | ⟨-, hj⟩
    · exact hj ▸ hpos
    · exact hj.2 ▸ h.positive hj.1
  · by_cases hji : j = i
    · subst hji
      exact absurd (by simp [NetworkState.setClient]) hj
    · simp only [NetworkState.setClient, Function.update_of_ne hji] at hj ⊢
      exact h.clear hj
  · rcases List.mem_append.1 hfd' with hfd' | hfd'
    · exact h.accepted hfd'
    · rw [List.mem_singleton, Call.accept.injEq] at hfd'
      exact hfd' ▸ hfd

/-- A descriptor that no slot stores is closed at once. -/
theorem Accounted.reject (h : Accounted sockets s) {fd : ℤ} (hfd : fd ∉ sockets)
    (hstored : ¬∃ j, Stores s.program j fd) :
    Accounted sockets ((s.call (.accept fd)).call (.close fd)) := by
  refine ⟨fun fd' hfd' => ?_, h.unique, h.positive, h.clear, fun {fd'} hfd' => ?_⟩
  · show Ledger.Accounts fd' (uses ((s.calls ++ [.accept fd]) ++ [.close fd])) _
    rw [uses_concat, uses_concat]
    by_cases heq : fd = fd'
    · subst heq
      exact ((h.accounts fd hfd).acquire hstored trivial).release trivial hstored
    · exact ((h.accounts fd' hfd').other (u := .acquire fd) heq).other (u := .release fd) heq
  · simp only [NetworkState.call, List.mem_append, List.mem_singleton, Call.accept.injEq,
      reduceCtorEq, or_false] at hfd'
    rcases hfd' with hfd' | rfl
    · exact h.accepted hfd'
    · exact hfd

/-- Closing the descriptor of an active client and clearing its slot. -/
theorem Accounted.closeSlot (h : Accounted sockets s) {i : Fin netMaxClients}
    (hactive : (s.program.clients i).isActive) (addr : SockaddrIn) :
    Accounted sockets ((s.call (.close (s.program.clients i).socketFd)).setClient i
      ⟨false, 0, addr⟩) := by
  -- The other slots store what they stored.
  have hstores : ∀ {j fd}, Stores ((s.call (.close (s.program.clients i).socketFd)).setClient i
      ⟨false, 0, addr⟩).program j fd ↔ j ≠ i ∧ Stores s.program j fd := by
    intro j fd
    rw [stores_setClient]
    simp [NetworkState.call]
  refine ⟨fun fd hfd => ?_, fun {j k fd} hj hk => ?_, fun {j} hj => ?_, fun {j} hj => ?_,
    fun {fd} hfd => ?_⟩
  · show Ledger.Accounts fd (uses (s.calls ++ [.close (s.program.clients i).socketFd])) _
    rw [uses_concat]
    by_cases heq : (s.program.clients i).socketFd = fd
    · -- The slot was the only owner of its descriptor.
      subst heq
      refine (h.accounts _ hfd).release ⟨i, hactive, rfl⟩ ?_
      rintro ⟨j, hj⟩
      obtain ⟨hji, hj⟩ := hstores.1 hj
      exact hji (h.unique hj ⟨hactive, rfl⟩)
    · -- Other descriptors are in the slots that they were in.
      refine ((h.accounts fd hfd).other (u := .release _) heq).congr (exists_congr fun j => ?_)
      rw [hstores]
      refine (and_iff_right_of_imp ?_).symm
      rintro ⟨-, hj⟩ rfl
      exact heq hj
  · exact h.unique (hstores.1 hj).2 (hstores.1 hk).2
  · have hj : Stores _ j _ := ⟨hj, rfl⟩
    exact (hstores.1 hj).2.2 ▸ h.positive (hstores.1 hj).2.1
  · by_cases hji : j = i
    · subst hji
      simp [NetworkState.setClient]
    · simp only [NetworkState.setClient, Function.update_of_ne hji] at hj ⊢
      exact h.clear hj
  · simp only [NetworkState.setClient, NetworkState.call, List.mem_append, List.mem_singleton,
      reduceCtorEq, or_false] at hfd
    exact h.accepted hfd

/-- Removing a client from a slot keeps the descriptors accounted for. -/
theorem Accounted.removeSlot (h : Accounted sockets s) (fd : ℤ) (i : Fin netMaxClients) :
    Accounted sockets (removeSlot fd s i) := by
  rw [Network.removeSlot]
  split_ifs with hslot
  · exact h.closeSlot hslot.1 _
  · exact h

/-- Serving a slot keeps the descriptors accounted for. -/
theorem Accounted.serveSlot (h : Accounted sockets s) (round : Round) (readfds : List ℤ)
    (i : Fin netMaxClients) : Accounted sockets (serveSlot round readfds s i) := by
  rcases serveSlot_cases round readfds s i with heq | ⟨data, heq⟩ | ⟨-, heq⟩ <;> rw [heq]
  · exact h
  · exact h.handle _ rfl
  · exact List.foldlRecOn slots _ (h.handle _ rfl) fun _ hs j _ => hs.removeSlot _ j

/-- A new descriptor that is not out is put into a slot or closed, if it is not 0. -/
theorem Accounted.acceptEffect (h : Accounted sockets s) {round : Round}
    (hfd : 0 ≤ round.accept → round.accept ∉ sockets ∧ ¬∃ i, Stores s.program i round.accept)
    (hzero : ¬(round.accept = 0 ∧ round.setNonblocking ∧ freeSlot s.program slots ≠ none)) :
    Accounted sockets (acceptEffect round s).2 := by
  rcases acceptEffect_cases round s with ⟨-, heq⟩ | ⟨haccept, -, heq⟩ | ⟨haccept, -, -, heq⟩ |
    ⟨i, haccept, hblocking, hfree, heq⟩ <;> rw [heq]
  · exact h
  · exact h.reject (hfd haccept).1 (hfd haccept).2
  · exact h.reject (hfd haccept).1 (hfd haccept).2
  · obtain ⟨hsockets, hstored⟩ := hfd haccept
    -- The test here is `>= 0`, and the later ones are `> 0`.
    have hne : round.accept ≠ 0 := fun hnull =>
      hzero ⟨hnull, hblocking, by rw [hfree]; exact Option.some_ne_none i⟩
    have hpos : 0 < round.accept := by omega
    have hinactive := inactive_of_freeSlot hfree
    exact (h.storeSlot hinactive hsockets hpos hstored _).handle _ rfl

end Keeps

section Endpoints

/-- Removing a client leaves the endpoints. -/
theorem removeSlot_endpoints (fd : ℤ) (s : NetworkState) (i : Fin netMaxClients) :
    (removeSlot fd s i).program.endpoints = s.program.endpoints := by
  rw [removeSlot]
  split_ifs <;> rfl

/-- Steps that leave the endpoints do so one after the other. -/
theorem foldl_endpoints {β : Type} {f : NetworkState → β → NetworkState}
    (h : ∀ s b, (f s b).program.endpoints = s.program.endpoints) (bs : List β) (s : NetworkState) :
    (bs.foldl f s).program.endpoints = s.program.endpoints :=
  List.foldlRecOn bs f (motive := fun s' => s'.program.endpoints = s.program.endpoints) rfl
    fun s' hs' b _ => (h s' b).trans hs'

/-- Serving a slot leaves the endpoints. -/
theorem serveSlot_endpoints (round : Round) (readfds : List ℤ) (s : NetworkState)
    (i : Fin netMaxClients) :
    (serveSlot round readfds s i).program.endpoints = s.program.endpoints := by
  rcases serveSlot_cases round readfds s i with heq | ⟨data, heq⟩ | ⟨-, heq⟩ <;> rw [heq]
  · rw [NetworkState.handle_program]
  · rw [foldl_endpoints (removeSlot_endpoints _), NetworkState.handle_program]

/-- Accepting a client leaves the endpoints. -/
theorem acceptEffect_endpoints (round : Round) (s : NetworkState) :
    (acceptEffect round s).2.program.endpoints = s.program.endpoints := by
  rcases acceptEffect_cases round s with ⟨-, heq⟩ | ⟨-, -, heq⟩ | ⟨-, -, -, heq⟩ |
    ⟨i, -, -, -, heq⟩ <;> rw [heq]
  · rfl
  · rfl
  · rw [NetworkState.handle_program]
    rfl

end Endpoints

section Rounds

/-- `net_run` calls `accept`. -/
def CallsAccept (program : NetworkProgram) (round : Round) : Prop :=
  ∃ endpoint rest ready, program.running ∧ program.endpoints = endpoint :: rest ∧
    0 < endpoint.socketFd ∧ round.select = some ready ∧ ready endpoint.socketFd

/-- The descriptor is open: it is the socket of an endpoint, or one that `accept` has returned and
that has not been closed since. -/
def IsOpen (s : NetworkState) (fd : ℤ) : Prop :=
  (∃ endpoint ∈ s.program.endpoints, endpoint.socketFd = fd) ∨ Ledger.isOut fd (uses s.calls)

/-- Where `accept` returns a descriptor, it is not open. -/
def AcceptsClosed (s : NetworkState) (round : Round) : Prop :=
  CallsAccept s.program round → 0 ≤ round.accept → ¬IsOpen s round.accept

/-- `accept` returns the descriptor 0, and it is put into a slot. -/
def StoresZero (s : NetworkState) (round : Round) : Prop :=
  CallsAccept s.program round ∧ round.accept = 0 ∧ round.setNonblocking ∧
    freeSlot s.program slots ≠ none

/-- Before the clients' data, `net_run` does nothing but accept a connection. -/
theorem beforeClients_cases (round : Round) (s : NetworkState) :
    (beforeClients round s).2 = s ∨
      CallsAccept s.program round ∧ (beforeClients round s).2 = (acceptEffect round s).2 := by
  rw [beforeClients]
  by_cases hrunning : ¬s.program.running
  · exact .inl (by rw [if_pos hrunning])
  rw [if_neg hrunning]
  cases hendpoints : s.program.endpoints with
  | nil => exact .inl rfl
  | cons endpoint rest =>
    dsimp only
    by_cases hsocket : endpoint.socketFd ≤ 0
    · exact .inl (by rw [if_pos hsocket])
    rw [if_neg hsocket]
    cases hselect : round.select with
    | none => exact .inl rfl
    | some ready =>
      by_cases hlistens : endpoint.socketFd ∈
          selected ready (requested s.program endpoint.socketFd)
      · refine .inr ⟨⟨endpoint, rest, ready, not_not.1 hrunning, hendpoints, not_le.1 hsocket,
          hselect, ((mem_selected_iff _ _ _ _).1 hlistens).1⟩, ?_⟩
        dsimp only
        rw [if_pos hlistens]
      · left
        dsimp only
        rw [if_neg hlistens]

/-- The state between the calls of `net_run` for a program with these endpoints. -/
structure Serving (endpoints : List NetworkEndpoint) (s : NetworkState) : Prop where
  accounted : Accounted (endpoints.map NetworkEndpoint.socketFd) s
  endpoints : s.program.endpoints = endpoints

/-- A call of `net_run` keeps the descriptors accounted for. -/
theorem Serving.netRunEffect {endpoints : List NetworkEndpoint} {s : NetworkState} {round : Round}
    (h : Serving endpoints s) (hclosed : AcceptsClosed s round) (hzero : ¬StoresZero s round) :
    Serving endpoints (netRunEffect round s) := by
  have hbefore : Serving endpoints (beforeClients round s).2 := by
    rcases beforeClients_cases round s with heq | ⟨hcalls, heq⟩ <;> rw [heq]
    · exact h
    · refine ⟨h.accounted.acceptEffect (fun haccept => ?_) fun hz => hzero ⟨hcalls, hz⟩,
        (acceptEffect_endpoints round s).trans h.endpoints⟩
      obtain ⟨hsocket, hout⟩ := not_or.1 (hclosed hcalls haccept)
      have hsockets : round.accept ∉ endpoints.map NetworkEndpoint.socketFd := fun hmem => by
        rw [← h.endpoints] at hmem
        obtain ⟨endpoint, hendpoint, hfd⟩ := List.mem_map.1 hmem
        exact hsocket ⟨endpoint, hendpoint, hfd⟩
      exact ⟨hsockets, mt (h.accounted.accounts _ hsockets).isOut_iff.2 hout⟩
  rw [Network.netRunEffect]
  cases (beforeClients round s).1 with
  | none => exact hbefore
  | some readfds =>
    exact ⟨List.foldlRecOn slots _ hbefore.accounted fun _ hs i _ => hs.serveSlot round readfds i,
      (foldl_endpoints (serveSlot_endpoints round readfds) slots _).trans hbefore.endpoints⟩

end Rounds

section Cleanup

variable {sockets : List ℤ} {s : NetworkState}

/-- What else the program has makes no difference. -/
theorem Accounted.congr (h : Accounted sockets s) {s' : NetworkState}
    (hclients : s'.program.clients = s.program.clients) (hcalls : s'.calls = s.calls) :
    Accounted sockets s' := by
  obtain ⟨⟨endpoints, clients, running, handlers⟩, calls⟩ := s'
  subst hclients hcalls
  exact ⟨h.accounts, h.unique, h.positive, h.clear, h.accepted⟩

/-- The endpoints that are open have these sockets. -/
def OpensOnly (sockets : List ℤ) (s : NetworkState) : Prop :=
  ∀ endpoint ∈ s.program.endpoints, 0 < endpoint.socketFd → endpoint.socketFd ∈ sockets

/-- `net_close` closes the sockets of the endpoints. -/
theorem Accounted.closeEndpoint (h : Accounted sockets s) (hopens : OpensOnly sockets s) (i : ℕ) :
    Accounted sockets (closeEndpoint s i) ∧ OpensOnly sockets (closeEndpoint s i) := by
  rw [Network.closeEndpoint]
  cases hi : s.program.endpoints[i]? with
  | none => exact ⟨h, hopens⟩
  | some endpoint =>
    dsimp only
    split_ifs with hpos
    · have hsocket := hopens endpoint (List.mem_of_getElem? hi) hpos
      refine ⟨⟨fun fd hfd => ?_, h.unique, h.positive, h.clear, fun {fd} hfd => ?_⟩,
        fun endpoint' hendpoint' hpos' => ?_⟩
      · rw [uses_concat]
        have hne : endpoint.socketFd ≠ fd := fun heq => hfd (heq ▸ hsocket)
        exact (h.accounts fd hfd).other (u := .release endpoint.socketFd) hne
      · simp only [List.mem_append, List.mem_singleton, reduceCtorEq, or_false] at hfd
        exact h.accepted hfd
      · rcases List.mem_or_eq_of_mem_set hendpoint' with hmem | rfl
        · exact hopens endpoint' hmem hpos'
        · exact absurd hpos' (lt_irrefl 0)
    · exact ⟨h, hopens⟩

/-- The cleanup does nothing to a slot without a positive descriptor. -/
theorem cleanupSlot_eq (h : Accounted sockets s) {i : Fin netMaxClients}
    (hfd : ¬0 < (s.program.clients i).socketFd) : cleanupSlot s i = s := by
  -- An active client would not be closed here, but there is none.
  have hinactive : (s.program.clients i).isActive = false :=
    Bool.eq_false_iff.2 fun hactive => hfd (h.positive hactive)
  rw [cleanupSlot, if_neg hfd, if_neg hfd, ← hinactive, NetworkState.setClient,
    Function.update_eq_self]

/-- The cleanup of a slot keeps the descriptors accounted for. -/
theorem Accounted.cleanupSlot (h : Accounted sockets s) (i : Fin netMaxClients) :
    Accounted sockets (cleanupSlot s i) := by
  by_cases hfd : 0 < (s.program.clients i).socketFd
  · -- A descriptor that is left in a free slot would be closed a second time.
    have hactive : (s.program.clients i).isActive := by
      by_contra hinactive
      rw [h.clear hinactive] at hfd
      exact lt_irrefl 0 hfd
    rw [Network.cleanupSlot, if_pos hfd, if_pos hfd]
    exact h.closeSlot hactive _
  · rw [cleanupSlot_eq h hfd]
    exact h

/-- The slots that `net_cleanup_program` has come to are free. -/
theorem isActive_cleanupSlots {j : Fin netMaxClients} :
    ∀ {is : List (Fin netMaxClients)} {s : NetworkState},
      ((is.foldl Network.cleanupSlot s).program.clients j).isActive →
        (s.program.clients j).isActive ∧ j ∉ is
  | [], _, hj => ⟨hj, List.not_mem_nil⟩
  | i :: is, s, hj => by
    rw [List.foldl_cons] at hj
    obtain ⟨hactive, hnot⟩ := isActive_cleanupSlots hj
    have hclients : (Network.cleanupSlot s i).program.clients =
        Function.update s.program.clients i
          { s.program.clients i with
            isActive := false
            socketFd := if 0 < (s.program.clients i).socketFd then 0
              else (s.program.clients i).socketFd } := by
      rw [Network.cleanupSlot]
      split_ifs <;> rfl
    rw [hclients] at hactive
    by_cases hji : j = i
    · rw [hji, Function.update_self] at hactive
      cases hactive
    · rw [Function.update_of_ne hji] at hactive
      exact ⟨hactive, by simp [hji, hnot]⟩

/-- After `net_cleanup_program`, no slot stores a descriptor, and the others than those of the
endpoints are accounted for. -/
theorem Serving.cleanupEffect {endpoints : List NetworkEndpoint} (h : Serving endpoints s) :
    Accounted (endpoints.map NetworkEndpoint.socketFd) (cleanupEffect s) ∧
      ∀ i fd, ¬Stores (cleanupEffect s).program i fd := by
  have hstopped : Accounted (endpoints.map NetworkEndpoint.socketFd)
      { s with program := { s.program with running := false } } := h.accounted.congr rfl rfl
  have hopens : OpensOnly (endpoints.map NetworkEndpoint.socketFd)
      { s with program := { s.program with running := false } } := fun endpoint hendpoint _ =>
    List.mem_map_of_mem (h.endpoints ▸ hendpoint)
  have hclosed := List.foldlRecOn (List.range s.program.endpoints.length) Network.closeEndpoint
    (motive := fun s => Accounted (endpoints.map NetworkEndpoint.socketFd) s ∧
      OpensOnly (endpoints.map NetworkEndpoint.socketFd) s)
    ⟨hstopped, hopens⟩ fun s hs i _ => hs.1.closeEndpoint hs.2 i
  rw [Network.cleanupEffect]
  -- The endpoints are closed, whatever else the state is.
  generalize (List.range s.program.endpoints.length).foldl Network.closeEndpoint _ = closed
    at hclosed ⊢
  have hleft : Accounted (endpoints.map NetworkEndpoint.socketFd)
      { closed with program := { closed.program with endpoints := [] } } :=
    hclosed.1.congr rfl rfl
  refine ⟨List.foldlRecOn slots Network.cleanupSlot hleft fun _ hs i _ => hs.cleanupSlot i,
    fun i fd hstores => ?_⟩
  exact (isActive_cleanupSlots hstores.1).2 (List.mem_finRange i)

end Cleanup

/-- A call of `net_run` with recursive mutexes as a step of a run. -/
def netStep (t : Thread Lock NetworkState) (round : Round) : Option (Thread Lock NetworkState) :=
  (netRun .recursive round t).map Prod.snd

/-- The program as `net_init_program` leaves it, with its handlers, before the first call. -/
def initialThread (host : Host) (handlers : Handlers) : Thread Lock NetworkState :=
  ⟨[], { netInitProgram host with handlers }, []⟩

/-- A descriptor that `accept` has returned and that is still open is in exactly one slot. -/
def StoredOnce (s : NetworkState) : Prop :=
  ∀ fd, .accept fd ∈ s.calls → Ledger.isOut fd (uses s.calls) → ∃! i, Stores s.program i fd

/-- The calls of `net_run` and then `net_cleanup_program` come to an end; between the calls the open
descriptors of the clients are in exactly one slot each, and at the end each descriptor has been
closed exactly once for each time that `accept` returned it. -/
def ClosesOnce (host : Host) (handlers : Handlers) (rounds : List Round) : Prop :=
  ∃ t t', Steps.run netStep (initialThread host handlers) rounds = some t ∧
    netCleanupProgram .recursive t = some ((), t') ∧
    (∀ m ∈ Steps.taken netStep (initialThread host handlers) rounds, StoredOnce m.1.state) ∧
    StoredOnce t.state ∧
    ∀ fd, .accept fd ∈ t'.state.calls → Ledger.Settled fd (uses t'.state.calls)

/-- In every call of a run, `accept` returns a descriptor that is not open. -/
def AcceptsClosedAlong (host : Host) (handlers : Handlers) (rounds : List Round) : Prop :=
  ∀ m ∈ Steps.taken netStep (initialThread host handlers) rounds, AcceptsClosed m.1.state m.2

/-- Between two calls of `net_run` each open descriptor of a client is in exactly one slot. -/
theorem Serving.storedOnce {endpoints : List NetworkEndpoint} {s : NetworkState}
    (h : Serving endpoints s) : StoredOnce s := by
  intro fd haccept hout
  have haccounts := h.accounted.accounts fd (h.accounted.accepted haccept)
  obtain ⟨i, hi⟩ := haccounts.isOut_iff.1 hout
  exact ⟨i, hi, fun j hj => h.accounted.unique hj hi⟩

/-- `net_init_program` leaves the state between two calls of `net_run`. -/
theorem serving_initialThread (host : Host) (handlers : Handlers) :
    Serving (netInitProgram host).endpoints (initialThread host handlers).state := by
  have hclients : (netInitProgram host).clients = fun _ => ⟨false, 0, ⟨0, 0⟩⟩ := by
    rcases netInitProgram_cases host with h | ⟨-, h⟩ <;> rw [h] <;> rfl
  have hstores : ∀ i fd, ¬Stores (initialThread host handlers).state.program i fd := by
    intro i fd hi
    rw [Stores, initialThread] at hi
    dsimp only at hi
    rw [hclients] at hi
    exact Bool.false_ne_true hi.1
  refine ⟨⟨fun fd _ => Ledger.accounts_nil fun ⟨i, hi⟩ => hstores i fd hi, ?_, ?_, ?_, ?_⟩, rfl⟩
  · exact fun hi => absurd hi (hstores _ _)
  · exact fun hi => absurd ⟨hi, rfl⟩ (hstores _ _)
  · intro i _
    show ((netInitProgram host).clients i).socketFd = 0
    rw [hclients]
  · exact fun hfd => absurd hfd List.not_mem_nil

/-- With recursive mutexes a call of `net_run` returns, and leaves the locks as they were. -/
theorem netStep_eq (t : Thread Lock NetworkState) (round : Round) :
    netStep t round = some ⟨t.held, netRunEffect round t.state⟩ := by
  have hdoes := netRun_recursive_does round t.held t.state
  rw [netStep, hdoes]
  rfl

/-- If `accept` returns no open descriptor, and no descriptor 0 that is put into a slot, every
accepted descriptor is closed exactly once, and until then it is in exactly one slot. -/
theorem accepted_closed_once {host : Host} {handlers : Handlers} {rounds : List Round}
    (hclosed : AcceptsClosedAlong host handlers rounds)
    (hzero : ∀ m ∈ Steps.taken netStep (initialThread host handlers) rounds,
      ¬StoresZero m.1.state m.2) : ClosesOnce host handlers rounds := by
  have hinit := serving_initialThread host handlers
  let P (t : Thread Lock NetworkState) := Serving (netInitProgram host).endpoints t.state
  let C (t : Thread Lock NetworkState) (round : Round) :=
    AcceptsClosed t.state round ∧ ¬StoresZero t.state round
  have hsteps : ∀ m ∈ Steps.taken netStep (initialThread host handlers) rounds, C m.1 m.2 :=
    fun m hm => ⟨hclosed m hm, hzero m hm⟩
  have hstep : ∀ t round, P t → C t round → ∃ t', netStep t round = some t' ∧ P t' :=
    fun t round hs hround => ⟨_, netStep_eq t round, hs.netRunEffect hround.1 hround.2⟩
  obtain ⟨htaken, t, hrun, hserving⟩ := Steps.run_of_step hstep hinit hsteps
  obtain ⟨hcleanup, hstores⟩ := hserving.cleanupEffect
  refine ⟨t, _, hrun, netCleanupProgram_recursive_does t.held t.state,
    fun m hm => (htaken m hm).storedOnce, hserving.storedOnce, fun fd hfd => ?_⟩
  exact (hcleanup.accounts fd (hcleanup.accepted hfd)).settled fun ⟨i, hi⟩ => hstores i fd hi

/-- A host on which the program gets the socket 3. -/
def openHost : Host := ⟨true, fun _ => false, false, true, 3, true, true, true⟩

/-- A call of `net_run` that accepts a connection. -/
def acceptRound (fd : ℤ) : Round :=
  ⟨some fun fd => fd = 3, fd, ⟨50000, 0⟩, true, fun _ => none⟩

/-- On the open host, the program has one server endpoint, on port 8080. -/
theorem openHost_endpoints :
    (netInitProgram openHost).endpoints = [⟨8080, .tcp, .server, 3, ⟨8080, 0⟩⟩] := by
  decide +kernel

/-- A first connection gets a descriptor that is not open if it is not that of the socket. -/
theorem acceptRound_closed {fd : ℤ} (hfd : fd ≠ 3) (handlers : Handlers) :
    AcceptsClosedAlong openHost handlers [acceptRound fd] := by
  intro m hm _ _
  rw [Steps.taken_singleton, List.mem_singleton] at hm
  subst hm
  rintro (⟨endpoint, hendpoint, hsocket⟩ | hout)
  · have hendpoints : endpoint ∈ (netInitProgram openHost).endpoints := hendpoint
    rw [openHost_endpoints, List.mem_singleton] at hendpoints
    subst hendpoints
    exact hfd hsocket.symm
  · cases hout

/-- One client is accepted as descriptor 5, and the cleanup closes it. -/
theorem accepted_closed_once_first :
    ClosesOnce openHost ⟨true, true, true⟩ [acceptRound 5] :=
  accepted_closed_once (acceptRound_closed (by decide) _) fun m hm => by
    rw [Steps.taken_singleton, List.mem_singleton] at hm
    subst hm
    rintro ⟨-, hzero, -⟩
    cases hzero

/-- A run in which `accept` returns the descriptor 0 for the first connection: it is not closed. -/
theorem descriptor_zero_not_closed :
    ¬∀ host handlers rounds, AcceptsClosedAlong host handlers rounds →
      ClosesOnce host handlers rounds := by
  intro h
  obtain ⟨t, t', hrun, hcleanup, -, -, hsettled⟩ :=
    h openHost ⟨true, true, true⟩ [acceptRound 0] (acceptRound_closed (by decide) _)
  rw [Steps.run_cons_some (netStep_eq _ _), Steps.run_nil, Option.some_inj] at hrun
  subst hrun
  have hdoes := netCleanupProgram_recursive_does [] (netRunEffect (acceptRound 0)
    (initialThread openHost ⟨true, true, true⟩).state)
  obtain ⟨-, rfl⟩ := Prod.mk.inj (Option.some.inj (hcleanup.symm.trans hdoes))
  have hcalls : (cleanupEffect (netRunEffect (acceptRound 0)
      (initialThread openHost ⟨true, true, true⟩).state)).calls =
      [.accept 0, .onConnect 0 ⟨50000, 0⟩, .close 3] := by
    decide +kernel
  have hzero := hsettled 0
  rw [hcalls] at hzero
  -- The last entry of the descriptor 0 is its acquisition.
  have hout := Ledger.isOut_of_settled (hzero (by simp))
  exact absurd hout (by decide)

end LibPolyCall.Network
