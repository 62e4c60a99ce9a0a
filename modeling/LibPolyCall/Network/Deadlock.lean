import LibPolyCall.Network.Effects

/-!
# The locks of the network loop

With normal mutexes, a call of `net_run` ends with every lock released if and only if no client
disconnects in it (`netRun_releases_iff`): the loop over the data of the clients holds
`clients_lock`, and for a client that disconnects it calls `net_remove_client`, which locks it.
-/

namespace LibPolyCall.Network

open Locking

/-- The round of the loop for a client that disconnects waits for ever, if `clients_lock` is
held. -/
theorem serveClient_blocks {held : List Lock} (hheld : .clients ∈ held) {round : Round}
    {readfds : List ℤ} {s : NetworkState} {i : Fin netMaxClients}
    (hread : Readable readfds (s.program.clients i)) (hdata : NoData (round.recv i)) :
    Blocks (serveClient .normal round readfds i) held s := by
  have hremove : ∀ fd s, Blocks (netRemoveClient .normal fd) (.client i :: held) s := fun fd s =>
    Blocks.critical (not_available_of_mem (List.mem_cons_of_mem _ hheld))
  refine Blocks.critical_body (Does.bind_blocks (does_view _ _ s) ?_)
  rw [if_pos hread]
  rcases hdata with hrecv | hrecv <;> rw [hrecv] <;>
    exact Does.bind_blocks (does_update _ _ s) (hremove _ _)

/-- The round of the loop for another client leaves the program as it is. -/
theorem serveSlot_program {round : Round} {readfds : List ℤ} {s : NetworkState}
    {i : Fin netMaxClients}
    (h : ¬(Readable readfds (s.program.clients i) ∧ NoData (round.recv i))) :
    (serveSlot round readfds s i).program = s.program := by
  rcases serveSlot_cases round readfds s i with heq | ⟨data, heq⟩ | ⟨hdisconnects, -⟩
  · rw [heq]
  · rw [heq, s.handle_program]
  · exact absurd hdisconnects h

/-- The loop over the clients' data waits for ever if a client disconnects. -/
theorem serveClients_blocks {round : Round} {readfds : List ℤ} {s : NetworkState}
    {i : Fin netMaxClients} (hread : Readable readfds (s.program.clients i))
    (hdata : NoData (round.recv i)) : Blocks (serveClients .normal round readfds) [] s := by
  have hfree : ClientsFree .normal [.clients] := fun i => .inr (by simp)
  refine Blocks.critical_body (Blocks.forM (P := fun s' => s'.program = s.program) ?_
    (fun s' hs' => serveClient_blocks List.mem_cons_self (hs' ▸ hread) hdata)
    (List.mem_finRange i) rfl)
  -- A slot before this one waits for ever itself, or leaves the program as it is.
  intro j s' hs'
  by_cases hj : Readable readfds (s'.program.clients j) ∧ NoData (round.recv j)
  · exact .inl (serveClient_blocks List.mem_cons_self hj.1 hj.2)
  · exact .inr ⟨_, serveClient_does hfree fun h => absurd h hj, (serveSlot_program hj).trans hs'⟩

/-- The loop over the clients' data ends if no client disconnects. -/
theorem serveClients_does {round : Round} {readfds : List ℤ} {s : NetworkState}
    (h : ∀ i, ¬(Readable readfds (s.program.clients i) ∧ NoData (round.recv i))) :
    ∃ s', Does (serveClients .normal round readfds) [] s () s' := by
  have hfree : ClientsFree .normal [.clients] := fun i => .inr (by simp)
  have hslot : ∀ i ∈ slots, ∀ s', s'.program = s.program →
      ∃ s'', Does (serveClient .normal round readfds i) [.clients] s' () s'' ∧
        s''.program = s.program := by
    intro i _ s' hs'
    have hi : ¬(Readable readfds (s'.program.clients i) ∧ NoData (round.recv i)) := hs' ▸ h i
    exact ⟨_, serveClient_does hfree fun h => absurd h hi, (serveSlot_program hi).trans hs'⟩
  obtain ⟨s', hdoes, -⟩ := Does.forM_exists hslot rfl
  exact ⟨s', Does.critical (.inr List.not_mem_nil) hdoes⟩

/-- `net_run` waits for activity on the descriptor: that of the endpoint or of an active client. -/
def Watches (program : NetworkProgram) (endpoint : NetworkEndpoint) (fd : ℤ) : Prop :=
  fd = endpoint.socketFd ∨ ∃ i, (program.clients i).isActive ∧
    0 < (program.clients i).socketFd ∧ fd = (program.clients i).socketFd

/-- A connection is waiting at the endpoint, and `accept` gives a descriptor for it. -/
def Connects (endpoint : NetworkEndpoint) (ready : ℤ → Bool) (round : Round) : Prop :=
  ready endpoint.socketFd ∧ 0 ≤ round.accept

/-- In a call of `net_run`, `recv` gives no data for the client of this slot: the call gets to the
clients' data, and the descriptor of the client is watched and ready. The client is one from before
the call, or the one that the call has put into the slot. -/
def Disconnects (program : NetworkProgram) (round : Round) (i : Fin netMaxClients) : Prop :=
  ∃ endpoint rest ready, program.running ∧ program.endpoints = endpoint :: rest ∧
    0 < endpoint.socketFd ∧ round.select = some ready ∧
    (Connects endpoint ready round → round.setNonblocking) ∧ NoData (round.recv i) ∧
    ((program.clients i).isActive ∧ ready (program.clients i).socketFd ∧
        Watches program endpoint (program.clients i).socketFd ∨
      Connects endpoint ready round ∧ freeSlot program slots = some i ∧ ready round.accept ∧
        Watches program endpoint round.accept)

section Accepting

variable {endpoint : NetworkEndpoint} {ready : ℤ → Bool} {s : NetworkState}

/-- `select` reports the sockets that are watched and ready. -/
theorem mem_readfds_iff (fd : ℤ) :
    fd ∈ selected ready (requested s.program endpoint.socketFd) ↔
      ready fd ∧ Watches s.program endpoint fd :=
  mem_selected_iff ready s.program endpoint.socketFd fd

/-- The listening socket is reported just if it is ready. -/
theorem listens_iff : endpoint.socketFd ∈ selected ready (requested s.program endpoint.socketFd) ↔
    ready endpoint.socketFd := by
  rw [mem_readfds_iff]
  exact and_iff_left (.inl rfl)

/-- Whether `net_run` gets to the clients' data: it does unless a new connection cannot be made
non-blocking. -/
theorem accepted_fst (round : Round) :
    (if endpoint.socketFd ∈ selected ready (requested s.program endpoint.socketFd) then
      acceptEffect round s else (true, s)).1 = true ↔
      (Connects endpoint ready round → round.setNonblocking) := by
  rw [Connects]
  by_cases hready : ready endpoint.socketFd = true
  · rw [if_pos (listens_iff.2 hready)]
    rcases acceptEffect_cases round s with ⟨haccept, heq⟩ | ⟨haccept, hblocking, heq⟩ |
      ⟨-, hblocking, -, heq⟩ | ⟨i, -, hblocking, -, heq⟩ <;> rw [heq]
    · exact iff_of_true rfl fun h => absurd h.2 haccept
    · exact iff_of_false Bool.false_ne_true fun h => hblocking (h ⟨hready, haccept⟩)
    · exact iff_of_true rfl fun _ => hblocking
    · exact iff_of_true rfl fun _ => hblocking
  · rw [if_neg (mt listens_iff.1 hready)]
    exact iff_of_true rfl fun h => absurd h.1 hready

/-- The clients that are read in the loop: those from before, and a new one. -/
theorem accepted_readable {round : Round} (readfds : List ℤ) (i : Fin netMaxClients)
    (hblocking : Connects endpoint ready round → round.setNonblocking) :
    Readable readfds ((if endpoint.socketFd ∈ selected ready
        (requested s.program endpoint.socketFd) then acceptEffect round s
      else (true, s)).2.program.clients i) ↔
      Readable readfds (s.program.clients i) ∨
        Connects endpoint ready round ∧ freeSlot s.program slots = some i ∧
          round.accept ∈ readfds := by
  by_cases hconnects : Connects endpoint ready round
  · rw [if_pos (listens_iff.2 hconnects.1), acceptEffect, if_pos hconnects.2,
      if_neg (not_not.2 (hblocking hconnects))]
    cases hfree : freeSlot s.program slots with
    | none => simp [NetworkState.call]
    | some j =>
      dsimp only
      rw [NetworkState.handle_program, NetworkState.setClient]
      dsimp only [NetworkState.call]
      by_cases hij : i = j
      · -- The slot was free, so it is read for the new client only.
        subst hij
        rw [Function.update_self]
        simp [Readable, inactive_of_freeSlot hfree, hconnects]
      · rw [Function.update_of_ne hij]
        simp [Ne.symm hij]
  · rw [or_iff_left fun h => hconnects h.1]
    by_cases hready : ready endpoint.socketFd = true
    · rw [if_pos (listens_iff.2 hready), acceptEffect, if_neg fun h => hconnects ⟨hready, h⟩]
    · rw [if_neg (mt listens_iff.1 hready)]

end Accepting

/-- A client disconnects if and only if the loop reads it and gets no data. -/
theorem disconnects_iff (round : Round) (s : NetworkState) (i : Fin netMaxClients) :
    Disconnects s.program round i ↔ ∃ readfds, (beforeClients round s).1 = some readfds ∧
      Readable readfds ((beforeClients round s).2.program.clients i) ∧ NoData (round.recv i) := by
  -- Along the tests of `net_run`: where it returns before the clients' data, both sides are false.
  rw [beforeClients]
  by_cases hrunning : ¬s.program.running
  · rw [if_pos hrunning]
    refine iff_of_false ?_ (by simp)
    rintro ⟨_, _, _, h, -⟩
    exact hrunning h
  rw [if_neg hrunning]
  cases hendpoints : s.program.endpoints with
  | nil => simp [Disconnects, hendpoints]
  | cons endpoint rest =>
    dsimp only
    by_cases hsocket : endpoint.socketFd ≤ 0
    · rw [if_pos hsocket]
      refine iff_of_false ?_ (by simp)
      rintro ⟨endpoint', rest', _, -, h, hpos, -⟩
      obtain ⟨rfl, -⟩ := List.cons.inj (hendpoints.symm.trans h)
      omega
    rw [if_neg hsocket]
    cases hselect : round.select with
    | none => simp [Disconnects, hselect]
    | some ready =>
      dsimp only
      constructor
      · rintro ⟨endpoint', rest', ready', -, hend, -, hsel, hblocking, hdata, hclient⟩
        obtain ⟨rfl, rfl⟩ := List.cons.inj (hendpoints.symm.trans hend)
        obtain rfl := Option.some.inj (hselect.symm.trans hsel)
        refine ⟨_, if_pos ((accepted_fst round).2 hblocking), ?_, hdata⟩
        rw [accepted_readable _ i hblocking, Readable, mem_readfds_iff, mem_readfds_iff]
        exact hclient
      · rintro ⟨readfds, hreadfds, hread, hdata⟩
        obtain ⟨hgoes, hreadfds⟩ := Option.ite_none_right_eq_some.1 hreadfds
        obtain rfl := Option.some.inj hreadfds
        have hblocking := (accepted_fst round).1 hgoes
        rw [accepted_readable _ i hblocking, Readable, mem_readfds_iff, mem_readfds_iff] at hread
        exact ⟨endpoint, rest, ready, not_not.1 hrunning, hendpoints, not_le.1 hsocket, hselect,
          hblocking, hdata, hread⟩

/-- With normal mutexes none of which is held, a call of `net_run` ends with every lock released if
and only if no client disconnects in it. Otherwise it waits for ever for a lock that it holds. -/
theorem netRun_releases_iff (round : Round) (s : NetworkState) :
    (∃ t, netRun .normal round ⟨[], s⟩ = some ((), t) ∧ t.held = []) ↔
      ∀ i, ¬Disconnects s.program round i := by
  have hrun := @netRun_eq_thenServe .normal [] (.inr List.not_mem_nil)
    (fun _ => .inr List.not_mem_nil) round s
  simp only [disconnects_iff, hrun]
  cases hbefore : (beforeClients round s).1 with
  | none => exact iff_of_true ⟨_, rfl, rfl⟩ fun i h => by simp at h
  | some readfds =>
    simp only [Option.some_inj, exists_eq_left']
    constructor
    · rintro ⟨t, ht, -⟩ i ⟨hread, hdata⟩
      have hblocks := serveClients_blocks hread hdata
      exact Option.some_ne_none _ (ht.symm.trans hblocks)
    · intro h
      obtain ⟨s', hdoes⟩ := serveClients_does h
      exact ⟨_, hdoes, rfl⟩

/-- A program with one client, which closes its connection. -/
theorem disconnect_blocks :
    let program : NetworkProgram := ⟨[⟨8080, .tcp, .server, 3, ⟨8080, 0⟩⟩],
      fun i => if i.val = 0 then ⟨true, 4, ⟨50000, 0⟩⟩ else ⟨false, 0, ⟨0, 0⟩⟩, true,
      ⟨true, true, true⟩⟩
    let round : Round := ⟨some fun fd => fd = 4, -1, ⟨0, 0⟩, true, fun _ => some []⟩
    ¬∃ t, netRun .normal round ⟨[], program, []⟩ = some ((), t) ∧ t.held = [] := by
  rintro program round ⟨t, ht, -⟩
  have hblocks : (netRun .normal round ⟨[], program, []⟩).isNone = true := by decide +kernel
  rw [ht] at hblocks
  cases hblocks

end LibPolyCall.Network
