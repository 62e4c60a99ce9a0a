import Mathlib.Data.Finset.Insert
import LibPolyCall.Library.Steps
import LibPolyCall.Runtime.Runtime

/-!
# Port mappings

The mappings of a runtime to which only `add_port_mapping` adds never share a port
(`mappings_conflictFree`), and a call that fails changes neither them nor the programs. The calls
are those of a run in each of which the program table has room.
-/

namespace LibPolyCall.Runtime

open CStrings Network

/-- The ports of a mapping. -/
def PortMapping.ports (mapping : PortMapping) : Finset UInt16 :=
  {mapping.hostPort, mapping.containerPort}

/-- Two mappings share no port. -/
def Apart (m m' : PortMapping) : Prop := Disjoint m.ports m'.ports

/-- The mappings are active with ports that are not zero, and no two of them share a port. -/
structure ConflictFree (mappings : List PortMapping) : Prop where
  apart : mappings.Pairwise Apart
  valid : ∀ m ∈ mappings, m.isActive ∧ validatePortMapping m

/-- A port is available just if no mapping has it. -/
theorem isPortAvailable_iff {a : PortMappingArray} {port : UInt16}
    (h : ∀ m ∈ a.below, m.isActive) :
    isPortAvailable a port ↔ ∀ m ∈ a.below, port ∉ m.ports := by
  rw [isPortAvailable, List.all_eq_true]
  refine forall₂_congr fun m hm => ?_
  rw [h m hm, Bool.true_and, Bool.not_eq_true', Bool.or_eq_false_iff, decide_eq_false_iff_not,
    decide_eq_false_iff_not, PortMapping.ports, Finset.mem_insert, Finset.mem_singleton, not_or,
    eq_comm, @eq_comm _ m.containerPort]

/-- A mapping whose ports are available keeps the mappings without conflicts. -/
theorem ConflictFree.concat {a : PortMappingArray} (h : ConflictFree a.below)
    {hostPort containerPort : UInt16} (hvalid : validatePortMapping ⟨hostPort, containerPort, true⟩)
    (hhost : isPortAvailable a hostPort) (hcontainer : isPortAvailable a containerPort) :
    ConflictFree (a.below ++ [⟨hostPort, containerPort, true⟩]) := by
  have hactive : ∀ m ∈ a.below, m.isActive := fun m hm => (h.valid m hm).1
  rw [isPortAvailable_iff hactive] at hhost hcontainer
  constructor
  · rw [List.pairwise_append]
    refine ⟨h.apart, List.pairwise_singleton _ _, fun m hm m' hm' => ?_⟩
    obtain rfl := List.mem_singleton.1 hm'
    rw [Apart, Finset.disjoint_right, PortMapping.ports]
    -- Each of the two new ports has been looked for in all the mappings.
    intro port hport
    rcases Finset.mem_insert.1 hport with rfl | hport
    · exact hhost m hm
    · obtain rfl := Finset.mem_singleton.1 hport
      exact hcontainer m hm
  · intro m hm
    rcases List.mem_append.1 hm with hm | hm
    · exact h.valid m hm
    · obtain rfl := List.mem_singleton.1 hm
      exact ⟨rfl, hvalid⟩

/-- A call of `add_port_mapping`, with what its own calls come to. -/
structure MappingCall where
  serviceName : Option CString
  hostPort : UInt16
  containerPort : UInt16
  outcome : MappingOutcome

/-- The mapping of a call. -/
def MappingCall.mapping (call : MappingCall) : PortMapping :=
  ⟨call.hostPort, call.containerPort, true⟩

/-- The call of `add_port_mapping`, with what it returns. -/
def MappingCall.result (call : MappingCall) (r : PPIRuntime) : Option (Bool × PPIRuntime) :=
  addPortMapping call.serviceName call.hostPort call.containerPort call.outcome r

/-- The step of a call. -/
def mapStep (r : PPIRuntime) (call : MappingCall) : Option PPIRuntime :=
  (call.result r).map Prod.snd

/-- A call that returns `true` adds one mapping and one program, and one that returns `false`
changes nothing. -/
def AddsOrKeeps (r : PPIRuntime) (call : MappingCall) : Prop :=
  ∃ added r', call.result r = some (added, r') ∧
    if added then
      r'.portMappings.count = r.portMappings.count + 1 ∧
        r'.portMappings.below = r.portMappings.below ++ [call.mapping] ∧
        ∃ program, r'.programs = r.programs ++ [program]
    else Same r r'

/-- Where the table has room, a call adds a mapping that conflicts with no other, or keeps what
there is. -/
theorem addsOrKeeps {r : PPIRuntime} {call : MappingCall} (hroom : r.programs.length < maxPrograms)
    (h : ConflictFree r.portMappings.below) :
    AddsOrKeeps r call ∧
      ∃ r', mapStep r call = some r' ∧ ConflictFree r'.portMappings.below := by
  rw [AddsOrKeeps, mapStep, MappingCall.result]
  rcases addPortMapping_cases call.serviceName call.hostPort call.containerPort call.outcome r with
    ⟨hadmits, hresult⟩ | ⟨-, r', hresult, hsame⟩
  · obtain ⟨r', happend, hprograms, hmappings⟩ := PPIRuntime.append_of_lt
      (r := r.mapped call.mapping hadmits.room) hroom
      (setPort (startedProgram call.outcome.start.host) call.containerPort)
    have hbelow : r'.portMappings.below = r.portMappings.below ++ [call.mapping] := by
      rw [hmappings]
      exact r.portMappings.below_push call.mapping hadmits.room
    have hcount : r'.portMappings.count = r.portMappings.count + 1 := by
      rw [hmappings]
      rfl
    have hsome : addPortMapping call.serviceName call.hostPort call.containerPort call.outcome r =
        some (true, r') := by
      rw [hresult]
      exact congrArg (Option.map _) happend
    rw [hsome]
    refine ⟨⟨true, r', rfl, hcount, hbelow, _, hprograms⟩, r', rfl, ?_⟩
    rw [hbelow]
    exact h.concat hadmits.valid hadmits.hostAvailable hadmits.containerAvailable
  · rw [hresult]
    refine ⟨⟨false, r', rfl, hsame⟩, r', rfl, ?_⟩
    rw [hsame.2.2]
    exact h

/-- The active mappings below `count` have ports that are not zero, different ones for different
mappings, and there are no more than the array has room for. -/
structure NoConflicts (a : PortMappingArray) : Prop where
  count : a.count ≤ maxPorts
  nonzero : ∀ i : Fin maxPorts, i < a.count → (a.mappings.get i).isActive →
    (a.mappings.get i).hostPort ≠ 0 ∧ (a.mappings.get i).containerPort ≠ 0
  disjoint : ∀ i j : Fin maxPorts, i < a.count → j < a.count → i ≠ j →
    (a.mappings.get i).isActive → (a.mappings.get j).isActive →
    Disjoint (a.mappings.get i).ports (a.mappings.get j).ports

/-- The mappings below the count are those of the array. -/
theorem getElem?_below {a : PortMappingArray} {i : Fin maxPorts} (hi : i < a.count) :
    a.below[i.val]? = some (a.mappings.get i) := by
  rw [PortMappingArray.below, List.getElem?_take_of_lt hi, List.Vector.get_eq_get_toList]
  exact List.getElem?_eq_getElem _

/-- An array whose mappings below the count are free of conflicts has none. -/
theorem ConflictFree.noConflicts {a : PortMappingArray} (h : ConflictFree a.below) :
    NoConflicts a := by
  refine ⟨a.count_le, fun i hi _ => ?_, fun i j hi hj hne _ _ => ?_⟩
  · have hvalid := (h.valid _ (List.mem_of_getElem? (getElem?_below hi))).2
    rw [validatePortMapping, Bool.and_eq_true, decide_eq_true_eq, decide_eq_true_eq] at hvalid
    exact ⟨fun hzero => absurd (hzero ▸ hvalid.1) (by decide),
      fun hzero => absurd (hzero ▸ hvalid.2) (by decide)⟩
  · have hapart : ∀ {i j : Fin maxPorts}, i < a.count → j < a.count → i < j →
        Apart (a.mappings.get i) (a.mappings.get j) := fun {i j} hi hj hlt => by
      obtain ⟨hi', hgeti⟩ := List.getElem?_eq_some_iff.1 (getElem?_below hi)
      obtain ⟨hj', hgetj⟩ := List.getElem?_eq_some_iff.1 (getElem?_below hj)
      rw [← hgeti, ← hgetj]
      exact List.pairwise_iff_getElem.1 h.apart i j hi' hj' hlt
    -- The mappings are apart in pairs, the first of the two below the second.
    rcases lt_or_gt_of_ne hne with hlt | hlt
    · exact hapart hi hj hlt
    · exact (hapart hj hi hlt).symm

/-- In a run of calls of `add_port_mapping` from a runtime without mappings, in each of which the
table has room for a program, the mappings never conflict, and every call adds one mapping and one
program or changes nothing. -/
theorem mappings_noConflicts {r : PPIRuntime} {calls : List MappingCall}
    (hempty : r.portMappings.count = 0)
    (hroom : ∀ m ∈ Steps.taken mapStep r calls, m.1.programs.length < maxPrograms) :
    (∀ m ∈ Steps.taken mapStep r calls, NoConflicts m.1.portMappings ∧ AddsOrKeeps m.1 m.2) ∧
      ∃ r', Steps.run mapStep r calls = some r' ∧ NoConflicts r'.portMappings := by
  let P (r : PPIRuntime) := ConflictFree r.portMappings.below
  let C (r : PPIRuntime) (_ : MappingCall) := r.programs.length < maxPrograms
  have hinit : P r := by
    have hnil : r.portMappings.below = [] :=
      List.length_eq_zero_iff.1 (r.portMappings.length_below.trans hempty)
    exact ⟨hnil ▸ List.Pairwise.nil, fun m hm => by rw [hnil] at hm; cases hm⟩
  have hstep : ∀ r call, P r → C r call → ∃ r', mapStep r call = some r' ∧ P r' :=
    fun r call hP hC => (addsOrKeeps hC hP).2
  obtain ⟨htaken, r', hrun, hr'⟩ := Steps.run_of_step hstep hinit hroom
  exact ⟨fun m hm => ⟨(htaken m hm).noConflicts, (addsOrKeeps (hroom m hm) (htaken m hm)).1⟩,
    r', hrun, hr'.noConflicts⟩

/-- Three calls, of which the third has the host port of the first. -/
def sharedPort : List MappingCall :=
  [(80, 8080), (81, 8081), (80, 8082)].map fun ports =>
    ⟨some (.ofChars "web".toList), ports.1, ports.2, fun _ => false, fun _ => true, true, true,
      fun _ => false, false, true, 3, true, true, true⟩

/-- The first two calls add their mappings, and the third one is refused. -/
theorem mappings_noConflicts_shared :
    let r := (initialSession []).runtime
    (∀ m ∈ Steps.taken mapStep r sharedPort,
        NoConflicts m.1.portMappings ∧ AddsOrKeeps m.1 m.2) ∧
      ∃ r', Steps.run mapStep r sharedPort = some r' ∧ NoConflicts r'.portMappings ∧
        r'.portMappings.below = [⟨80, 8080, true⟩, ⟨81, 8081, true⟩] := by
  intro r
  have hlengths : (Steps.taken mapStep r sharedPort).map (fun m => m.1.programs.length) =
      [0, 1, 2] := by decide +kernel
  have hroom : ∀ m ∈ Steps.taken mapStep r sharedPort, m.1.programs.length < maxPrograms := by
    intro m hm
    have hlength : m.1.programs.length ∈ [0, 1, 2] := hlengths ▸ List.mem_map_of_mem hm
    revert hlength
    generalize m.1.programs.length = n
    simp only [List.mem_cons, List.not_mem_nil, or_false, maxPrograms]
    omega
  obtain ⟨htaken, r', hrun, hconflicts⟩ := mappings_noConflicts rfl hroom
  have hbelow : (Steps.run mapStep r sharedPort).map (fun r => r.portMappings.below) =
      some [⟨80, 8080, true⟩, ⟨81, 8081, true⟩] := by decide +kernel
  rw [hrun] at hbelow
  exact ⟨htaken, r', hrun, hconflicts, Option.some.inj hbelow⟩

end LibPolyCall.Runtime
