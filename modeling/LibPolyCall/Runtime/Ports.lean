import LibPolyCall.Library.Steps
import LibPolyCall.Runtime.Runtime

/-!
# The ports of the stored programs

`net_init_program` chooses the port that a program listens on, and the places that start a program
or configure it write the port of its endpoint again afterwards. The port of every stored program is
the one that it listens on as long as what they write is that port (`ports_agree_iff`).
-/

namespace LibPolyCall.Runtime

open CStrings Network Scan

/-- The port of the first endpoint is the one that its socket is bound to. -/
def Agrees (program : NetworkProgram) : Prop :=
  ∀ endpoint ∈ program.endpoints.head?, endpoint.port = endpoint.addr.sinPort

/-- The ports of all stored programs are those that they listen on. -/
def PortsAgree (s : Session) : Prop := ∀ program ∈ s.runtime.programs, Agrees program

/-- What the action writes to the port of an endpoint, if anything, is the port that
`net_init_program` has bound: the first one from 8080 to 8180 that is not in use. -/
def WritesBound (s : Session) : Action → Prop
  | .addPortMapping serviceName hostPort containerPort outcome =>
    Admits serviceName hostPort containerPort outcome s.runtime →
      containerPort = chosenPort outcome.start.host
  | .configLine line outcome =>
    configLine line = .networkStart → outcome.Starts → s.portNumber = chosenPort outcome.host
  | .configureNetworkPort index port =>
    ∀ program ∈ s.runtime.programs[index]?, ∀ endpoint ∈ program.endpoints.head?,
      port = endpoint.addr.sinPort
  | .startNetwork _ => True
  | .stopNetwork => True

/-- A port that is written agrees just if it is the one of the socket's address. -/
theorem agrees_setPort (program : NetworkProgram) (port : UInt16) :
    Agrees (setPort program port) ↔
      ∀ endpoint ∈ program.endpoints.head?, port = endpoint.addr.sinPort := by
  rw [Agrees, setPort]
  cases hendpoints : program.endpoints with
  | nil => simp [hendpoints]
  | cons endpoint rest => simp

/-- `configure_network_port` writes the port. -/
theorem configureNetworkPort_snd (program : NetworkProgram) (port : UInt16) :
    (configureNetworkPort program port).2 = setPort program port := by
  rw [configureNetworkPort, setPort]
  split_ifs with hendpoints
  · rw [hendpoints]
  · rfl

/-- A program that has just been started listens on the port of its endpoint. -/
theorem startedProgram_endpoints {host : Host} (h : host.Starts) :
    (startedProgram host).endpoints =
      [⟨chosenPort host, .tcp, .server, host.socket, ⟨chosenPort host, inaddrAny⟩⟩] := by
  rw [startedProgram, (netInitProgram_of_starts h).2]
  rfl

/-- A program that starts records the port that it is bound to. -/
theorem agrees_startedProgram {host : Host} (h : host.Starts) : Agrees (startedProgram host) := by
  rw [Agrees, startedProgram_endpoints h]
  simp

/-- Behind a start, a port that is written agrees just if it is the one chosen. -/
theorem agrees_setPort_startedProgram {host : Host} (h : host.Starts) (port : UInt16) :
    Agrees (setPort (startedProgram host) port) ↔ port = chosenPort host := by
  rw [agrees_setPort, startedProgram_endpoints h]
  simp

/-- Changing one element of a list whose elements all have `Q`. -/
theorem forall_mem_modify {α : Type} {Q : α → Prop} {f : α → α} : ∀ {l : List α} {i : ℕ},
    (∀ a ∈ l, Q a) → ((∀ a ∈ l.modify i f, Q a) ↔ ∀ a ∈ l[i]?, Q (f a))
  | [], i, _ => by simp
  | a :: l, 0, h => by
    rw [List.forall_mem_cons] at h
    simpa using fun _ => h.2
  | a :: l, i + 1, h => by
    rw [List.forall_mem_cons] at h
    rw [List.modify_succ_cons, List.forall_mem_cons, List.getElem?_cons_succ,
      forall_mem_modify h.2]
    exact and_iff_right h.1

/-- Appending a program to the table. -/
theorem append_portsAgree {r r' : PPIRuntime} {program : NetworkProgram}
    (h : ∀ p ∈ r.programs, Agrees p) (happend : r.append program = some r') :
    (∀ p ∈ r'.programs, Agrees p) ↔ Agrees program := by
  by_cases hroom : r.programs.length < maxPrograms
  · obtain ⟨r'', happend', hprograms, -⟩ := PPIRuntime.append_of_lt hroom program
    obtain rfl := Option.some.inj (happend.symm.trans happend')
    rw [hprograms, List.forall_mem_append, List.forall_mem_singleton]
    exact and_iff_right h
  · rw [PPIRuntime.append_of_not_lt hroom] at happend
    cases happend

/-- A start keeps the ports right just if it writes no port but the one chosen. -/
theorem start_portsAgree {outcome : StartOutcome} {port : Option UInt16} {r r' : PPIRuntime}
    (h : ∀ p ∈ r.programs, Agrees p) (hstart : start outcome port r = some r') :
    (∀ p ∈ r'.programs, Agrees p) ↔
      (outcome.Starts → ∀ port' ∈ port, port' = chosenPort outcome.host) := by
  rw [start] at hstart
  split_ifs at hstart with hstarts
  · rw [append_portsAgree h hstart, imp_iff_right hstarts]
    cases port with
    | none => exact iff_of_true (agrees_startedProgram hstarts.2) (by simp)
    | some port =>
      rw [Option.elim_some, agrees_setPort_startedProgram hstarts.2]
      simp
  · obtain rfl := Option.some.inj hstart
    exact iff_of_true h fun hstarts' => absurd hstarts' hstarts

/-- A step keeps the ports in agreement exactly if it writes no other port than the bound one. -/
theorem step_portsAgree (s : Session) (action : Action) (s' : Session) (h : PortsAgree s)
    (hstep : step s action = some s') : PortsAgree s' ↔ WritesBound s action := by
  cases action with
  | addPortMapping serviceName hostPort containerPort outcome =>
    obtain ⟨⟨added, r⟩, hresult, rfl⟩ := Option.map_eq_some_iff.1 hstep
    rcases addPortMapping_cases serviceName hostPort containerPort outcome s.runtime with
      ⟨hadmits, hcases⟩ | ⟨hadmits, r', hcases, hsame⟩
    · obtain ⟨r', happend, hpair⟩ := Option.map_eq_some_iff.1 (hcases.symm.trans hresult)
      obtain ⟨-, rfl⟩ := Prod.mk.inj hpair
      have hagree := append_portsAgree (r := s.runtime.mapped _ hadmits.room) h happend
      rw [agrees_setPort_startedProgram hadmits.starts.2] at hagree
      exact hagree.trans (imp_iff_right hadmits).symm
    · obtain ⟨-, rfl⟩ := Prod.mk.inj (Option.some.inj (hcases.symm.trans hresult))
      -- A call that fails leaves the programs as they are.
      refine iff_of_true ?_ fun h => absurd h hadmits
      show ∀ program ∈ r'.programs, Agrees program
      rw [hsame.1]
      exact h
  | configLine line outcome =>
    rw [step] at hstep
    cases hline : configLine line with
    | port containerPort =>
      rw [hline] at hstep
      obtain rfl := Option.some.inj hstep
      exact iff_of_true h fun hstart => by rw [hline] at hstart; cases hstart
    | networkStart =>
      rw [hline] at hstep
      obtain ⟨r, hr, rfl⟩ := Option.map_eq_some_iff.1 hstep
      refine (start_portsAgree h hr).trans ?_
      simp [WritesBound, hline]
    | other =>
      rw [hline] at hstep
      obtain rfl := Option.some.inj hstep
      exact iff_of_true h fun hstart => by rw [hline] at hstart; cases hstart
  | configureNetworkPort index port =>
    obtain rfl := Option.some.inj hstep
    refine (forall_mem_modify h).trans (forall₂_congr fun program _ => ?_)
    rw [configureNetworkPort_snd]
    exact agrees_setPort program port
  | startNetwork outcome =>
    obtain ⟨r, hr, rfl⟩ := Option.map_eq_some_iff.1 hstep
    exact (start_portsAgree h hr).trans (iff_of_true (fun _ _ h => by cases h) trivial)
  | stopNetwork =>
    obtain rfl := Option.some.inj hstep
    exact iff_of_true (fun _ h => by cases h) trivial

/-- In every state of a run of `main`, the port of every stored program is the one that it listens
on, if and only if no step of the run writes another one. -/
theorem ports_agree_iff {basePath : Text} {actions : List Action} {s : Session}
    (hrun : Steps.run step (initialSession basePath) actions = some s) :
    (∀ m ∈ Steps.taken step (initialSession basePath) actions, PortsAgree m.1) ∧ PortsAgree s ↔
      ∀ m ∈ Steps.taken step (initialSession basePath) actions, WritesBound m.1 m.2 :=
  Steps.forall_taken_iff step_portsAgree (fun _ h => by cases h) hrun

/-- The line `network start` leaves the ports right. -/
theorem ports_agree_iff_start :
    let host : Host := ⟨true, fun _ => false, false, true, 3, true, true, true⟩
    let actions : List Action := [.configLine (lit "network start") ⟨true, host⟩]
    ∃ s, Steps.run step (initialSession []) actions = some s ∧ PortsAgree s := by
  intro host actions
  have hsome : (Steps.run step (initialSession []) actions).isSome = true := by decide +kernel
  obtain ⟨s, hs⟩ := Option.isSome_iff_exists.1 hsome
  refine ⟨s, hs, ((ports_agree_iff hs).2 fun m hm => ?_).2⟩
  rw [Steps.taken_singleton, List.mem_singleton] at hm
  subst hm
  intro _ _
  decide +kernel

/-- A file that maps a port and then starts the network: the program listens on 8080 and records
3000. -/
theorem mapped_port_not_bound :
    let host : Host := ⟨true, fun _ => false, false, true, 3, true, true, true⟩
    let actions : List Action :=
      [.configLine (lit "port 9000:3000") ⟨true, host⟩,
        .configLine (lit "network start") ⟨true, host⟩]
    ¬∀ s, Steps.run step (initialSession []) actions = some s → PortsAgree s := by
  intro host actions h
  have hendpoints : (Steps.run step (initialSession []) actions).map
      (fun s => s.runtime.programs.map NetworkProgram.endpoints) =
      some [[⟨3000, .tcp, .server, 3, ⟨8080, 0⟩⟩]] := by decide +kernel
  obtain ⟨s, hs, hprograms⟩ := Option.map_eq_some_iff.1 hendpoints
  obtain ⟨program, hprogram, hlist⟩ := List.mem_map.1 (hprograms ▸ List.mem_singleton_self _)
  have hagrees := h s hs program hprogram
  rw [Agrees, hlist] at hagrees
  exact absurd (hagrees _ rfl) (by decide)

end LibPolyCall.Runtime
