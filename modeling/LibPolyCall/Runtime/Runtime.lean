import LibPolyCall.Library.CString
import LibPolyCall.Library.Scan
import LibPolyCall.Network.Program

/-!
# The runtime of the command line

The program table and the port mappings of `main.c`, and the steps of `main` and of
`add_port_mapping` that change them. A step that would write beyond the end of the program table has
no result.
-/

namespace LibPolyCall.Runtime

open CStrings Network Scan

/-- `MAX_PORTS`. -/
def maxPorts : ℕ := 64

/-- `MAX_PROGRAMS`. -/
def maxPrograms : ℕ := 8

/-- `PortMapping`. -/
structure PortMapping where
  hostPort : UInt16
  containerPort : UInt16
  isActive : Bool
deriving DecidableEq, Repr

/-- `PortMappingArray`. -/
structure PortMappingArray where
  mappings : List.Vector PortMapping maxPorts
  count : ℕ
  /-- The array has no more mappings than it has room for. -/
  count_le : count ≤ maxPorts

namespace PortMappingArray

/-- The mappings below `count`. -/
def below (a : PortMappingArray) : List PortMapping := a.mappings.toList.take a.count

/-- `mappings[count++] = mapping`. -/
def push (a : PortMappingArray) (mapping : PortMapping) (h : a.count < maxPorts) :
    PortMappingArray :=
  ⟨a.mappings.set ⟨a.count, h⟩ mapping, a.count + 1, h⟩

/-- `count--`. -/
def pop (a : PortMappingArray) : PortMappingArray :=
  ⟨a.mappings, a.count - 1, (Nat.sub_le _ _).trans a.count_le⟩

end PortMappingArray

/-- What the steps read of `PPI_Runtime`, with `dir_control.base_path`: the programs are those below
`program_count`. -/
structure PPIRuntime where
  programs : List NetworkProgram
  portMappings : PortMappingArray
  basePath : Text
  /-- The table has no more programs than it has room for. -/
  programs_le : programs.length ≤ maxPrograms

/-- `g_runtime.programs[g_runtime.program_count++] = program`. There is no result where this writes
beyond the end of the table. -/
def PPIRuntime.append (r : PPIRuntime) (program : NetworkProgram) : Option PPIRuntime :=
  if h : r.programs.length < maxPrograms then
    some { r with
      programs := r.programs ++ [program]
      programs_le := by
        rw [List.length_append]
        exact h }
  else none

/-- With room, a program comes behind the others. -/
theorem PPIRuntime.append_of_lt {r : PPIRuntime} (h : r.programs.length < maxPrograms)
    (program : NetworkProgram) : ∃ r', r.append program = some r' ∧
      r'.programs = r.programs ++ [program] ∧ r'.portMappings = r.portMappings :=
  ⟨_, dif_pos h, rfl, rfl⟩

/-- Without room, the program would be written behind the table, and there is no result. -/
theorem PPIRuntime.append_of_not_lt {r : PPIRuntime} (h : ¬r.programs.length < maxPrograms)
    (program : NetworkProgram) : r.append program = none :=
  dif_neg h

/-- `validate_port_mapping`. -/
def validatePortMapping (mapping : PortMapping) : Bool :=
  0 < mapping.hostPort && 0 < mapping.containerPort

/-- `is_port_available`. -/
def isPortAvailable (a : PortMappingArray) (port : UInt16) : Bool :=
  a.below.all fun mapping =>
    !(mapping.isActive && (mapping.hostPort = port || mapping.containerPort = port))

/-- What the calls come to with which a program is started: whether it can be allocated, and the
calls of `net_init_program`. -/
structure StartOutcome where
  allocates : Bool
  host : Host

/-- `program && (net_init_program(program), program->endpoints && program->count > 0)`. -/
def StartOutcome.Starts (outcome : StartOutcome) : Prop := outcome.allocates ∧ outcome.host.Starts

/-- Whether a start succeeds can be decided. -/
instance (outcome : StartOutcome) : Decidable outcome.Starts :=
  inferInstanceAs (Decidable (_ ∧ _))

/-- What the calls of `add_port_mapping` come to: which paths `stat` finds, for which
`mkdir` succeeds, and the start of the program. -/
structure MappingOutcome where
  stat : Text → Bool
  mkdir : Text → Bool
  start : StartOutcome

/-- `program->endpoints[0].port = port`. -/
def setPort (program : NetworkProgram) (port : UInt16) : NetworkProgram :=
  match program.endpoints with
  | [] => program
  | endpoint :: rest => { program with endpoints := { endpoint with port } :: rest }

/-- The program that `net_init_program` gives, with the handlers of `main.c`. -/
def startedProgram (host : Host) : NetworkProgram :=
  { netInitProgram host with handlers := ⟨true, true, true⟩ }

/-- The path that `add_port_mapping` prints to its buffer of 512 bytes. -/
def servicePath (r : PPIRuntime) (serviceName : CString) : Text :=
  (r.basePath ++ lit "/" ++ serviceName.bytes).take 511

/-- `add_port_mapping`, with what it returns. -/
def addPortMapping (serviceName : Option CString) (hostPort containerPort : UInt16)
    (outcome : MappingOutcome) (r : PPIRuntime) : Option (Bool × PPIRuntime) :=
  let mapping : PortMapping := ⟨hostPort, containerPort, true⟩
  match serviceName with
  | none => some (false, r)
  | some name =>
    if ¬validatePortMapping mapping then some (false, r)
    else if hfull : ¬r.portMappings.count < maxPorts then some (false, r)
    else if ¬isPortAvailable r.portMappings hostPort ∨
        ¬isPortAvailable r.portMappings containerPort then some (false, r)
    else if ¬outcome.stat (servicePath r name) ∧ ¬outcome.mkdir (servicePath r name) then
      some (false, r)
    else
      let mapped := { r with portMappings := r.portMappings.push mapping (not_not.1 hfull) }
      if ¬outcome.start.allocates then
        some (false, { mapped with portMappings := mapped.portMappings.pop })
      else if outcome.start.host.Starts then
        (mapped.append (setPort (startedProgram outcome.start.host) containerPort)).map
          fun r => (true, r)
      else some (false, { mapped with portMappings := mapped.portMappings.pop })

/-- `configure_network_port`, with what it returns. -/
def configureNetworkPort (program : NetworkProgram) (port : UInt16) : Bool × NetworkProgram :=
  if program.endpoints = [] then (false, program) else (true, setPort program port)

/-- A line of the file that `main` reads with `-f`: `port`, with the container port, `network
start`, or one that it does nothing for. -/
inductive ConfigLine where
  | port (containerPort : UInt16)
  | networkStart
  | other
deriving DecidableEq, Repr

/-- `sscanf(value, "%hu:%hu", &host_port, &container_port) == 2`, with the container port. -/
def scanPorts (value : Text) : Option UInt16 :=
  match scanShort value with
  -- The byte behind the first number is to be a colon.
  | some (_, 58 :: rest) => (scanShort rest).map Prod.fst
  | _ => none

/-- What `main` makes of a line. -/
def configLine (line : Text) : ConfigLine :=
  let trimmed := line.rdropWhile fun b => b = newline || b = 13
  if trimmed = [] ∨ trimmed.head? = some 35 then .other
  else
    match scanWords [31, 255] trimmed with
    | [cmd, value] =>
      if cmd = lit "port" then (scanPorts value).elim .other .port
      else if cmd = lit "network" ∧ value = lit "start" then .networkStart
      else .other
    | _ => .other

/-- The runtime with `port_number` of `main`. -/
structure Session where
  runtime : PPIRuntime
  portNumber : UInt16

/-- The actions that change the program table. -/
inductive Action where
  | addPortMapping (serviceName : Option CString) (hostPort containerPort : UInt16)
      (outcome : MappingOutcome)
  | configLine (line : Text) (outcome : StartOutcome)
  | configureNetworkPort (index : ℕ) (port : UInt16)
  | startNetwork (outcome : StartOutcome)
  | stopNetwork

/-- A start of a program at one of the places of `main`, with the port that it sets, if any. -/
def start (outcome : StartOutcome) (port : Option UInt16) (r : PPIRuntime) : Option PPIRuntime :=
  if outcome.Starts then
    r.append (port.elim (startedProgram outcome.host) (setPort (startedProgram outcome.host)))
  else some r

/-- `stop_network`. -/
def stopNetwork (r : PPIRuntime) : PPIRuntime := { r with programs := [], programs_le := by decide }

/-- `configure_network_port(programs[index], port)`, where there is such a program. -/
def configure (index : ℕ) (port : UInt16) (r : PPIRuntime) : PPIRuntime :=
  { r with
    programs := r.programs.modify index fun program => (configureNetworkPort program port).2
    programs_le := by
      rw [List.length_modify]
      exact r.programs_le }

/-- The step of an action. -/
def step (s : Session) : Action → Option Session
  | .addPortMapping serviceName hostPort containerPort outcome =>
    (addPortMapping serviceName hostPort containerPort outcome s.runtime).map fun result =>
      { s with runtime := result.2 }
  | .configLine line outcome =>
    match configLine line with
    | .port containerPort => some { s with portNumber := containerPort }
    | .networkStart =>
      (start outcome (some s.portNumber) s.runtime).map fun runtime => { s with runtime }
    | .other => some s
  | .configureNetworkPort index port => some { s with runtime := configure index port s.runtime }
  | .startNetwork outcome =>
    (start outcome none s.runtime).map fun runtime => { s with runtime }
  | .stopNetwork => some { s with runtime := stopNetwork s.runtime }

section AddPortMapping

/-- There are as many mappings below the count. -/
theorem PortMappingArray.length_below (a : PortMappingArray) : a.below.length = a.count := by
  rw [below, List.length_take, List.Vector.toList_length]
  exact Nat.min_eq_left a.count_le

/-- The mapping that is added comes behind the others. -/
theorem PortMappingArray.below_push (a : PortMappingArray) (mapping : PortMapping)
    (h : a.count < maxPorts) : (a.push mapping h).below = a.below ++ [mapping] := by
  have hlength : a.count < a.mappings.toList.length := by rwa [List.Vector.toList_length]
  rw [below, push, List.Vector.toList_set, List.take_add_one, List.getElem?_set_self hlength,
    List.take_set_of_le (Nat.le_refl _)]
  rfl

/-- Taking back the mapping that was added leaves the others. -/
theorem PortMappingArray.below_pop_push (a : PortMappingArray) (mapping : PortMapping)
    (h : a.count < maxPorts) : (a.push mapping h).pop.below = a.below := by
  show (a.mappings.set ⟨a.count, h⟩ mapping).toList.take (a.count + 1 - 1) = _
  rw [Nat.add_sub_cancel, List.Vector.toList_set, List.take_set_of_le (Nat.le_refl _)]
  rfl

/-- The conditions under which `add_port_mapping` adds the mapping. -/
structure Admits (serviceName : Option CString) (hostPort containerPort : UInt16)
    (outcome : MappingOutcome) (r : PPIRuntime) : Prop where
  named : serviceName.any fun name =>
    outcome.stat (servicePath r name) || outcome.mkdir (servicePath r name)
  valid : validatePortMapping ⟨hostPort, containerPort, true⟩
  room : r.portMappings.count < maxPorts
  hostAvailable : isPortAvailable r.portMappings hostPort
  containerAvailable : isPortAvailable r.portMappings containerPort
  starts : outcome.start.Starts

/-- Whether a mapping is admitted can be decided. -/
instance (serviceName : Option CString) (hostPort containerPort : UInt16)
    (outcome : MappingOutcome) (r : PPIRuntime) :
    Decidable (Admits serviceName hostPort containerPort outcome r) :=
  decidable_of_iff
    ((serviceName.any fun name =>
        outcome.stat (servicePath r name) || outcome.mkdir (servicePath r name)) ∧
      validatePortMapping ⟨hostPort, containerPort, true⟩ ∧ r.portMappings.count < maxPorts ∧
      isPortAvailable r.portMappings hostPort ∧ isPortAvailable r.portMappings containerPort ∧
      outcome.start.Starts)
    ⟨fun ⟨h₁, h₂, h₃, h₄, h₅, h₆⟩ => ⟨h₁, h₂, h₃, h₄, h₅, h₆⟩,
      fun ⟨h₁, h₂, h₃, h₄, h₅, h₆⟩ => ⟨h₁, h₂, h₃, h₄, h₅, h₆⟩⟩

/-- The runtime with one more mapping. -/
def PPIRuntime.mapped (r : PPIRuntime) (mapping : PortMapping)
    (h : r.portMappings.count < maxPorts) : PPIRuntime :=
  { r with portMappings := r.portMappings.push mapping h }

/-- The runtimes have the same programs, and the same mappings below `count`. -/
def Same (r r' : PPIRuntime) : Prop :=
  r'.programs = r.programs ∧ r'.portMappings.count = r.portMappings.count ∧
    r'.portMappings.below = r.portMappings.below

/-- `add_port_mapping` adds the mapping and the program, or it changes nothing. -/
theorem addPortMapping_cases (serviceName : Option CString) (hostPort containerPort : UInt16)
    (outcome : MappingOutcome) (r : PPIRuntime) :
    (∃ h : Admits serviceName hostPort containerPort outcome r,
      addPortMapping serviceName hostPort containerPort outcome r =
        ((r.mapped ⟨hostPort, containerPort, true⟩ h.room).append
          (setPort (startedProgram outcome.start.host) containerPort)).map fun r' => (true, r')) ∨
    (¬Admits serviceName hostPort containerPort outcome r ∧
      ∃ r', addPortMapping serviceName hostPort containerPort outcome r = some (false, r') ∧
        Same r r') := by
  have hsame : Same r r := ⟨rfl, rfl, rfl⟩
  cases serviceName with
  | none => exact .inr ⟨fun h => Bool.false_ne_true h.named, r, rfl, hsame⟩
  | some name =>
    rw [addPortMapping]
    dsimp only
    by_cases hvalid : validatePortMapping ⟨hostPort, containerPort, true⟩
    swap
    · rw [if_pos hvalid]
      exact .inr ⟨fun h => hvalid h.valid, r, rfl, hsame⟩
    rw [if_neg (not_not.2 hvalid)]
    by_cases hroom : r.portMappings.count < maxPorts
    swap
    · rw [dif_pos hroom]
      exact .inr ⟨fun h => hroom h.room, r, rfl, hsame⟩
    rw [dif_neg (not_not.2 hroom)]
    by_cases havailable : ¬isPortAvailable r.portMappings hostPort ∨
        ¬isPortAvailable r.portMappings containerPort
    · rw [if_pos havailable]
      refine .inr ⟨fun h => ?_, r, rfl, hsame⟩
      exact havailable.elim (· h.hostAvailable) (· h.containerAvailable)
    rw [if_neg havailable]
    by_cases hdirectory : ¬outcome.stat (servicePath r name) ∧ ¬outcome.mkdir (servicePath r name)
    · rw [if_pos hdirectory]
      refine .inr ⟨fun h => ?_, r, rfl, hsame⟩
      exact (Bool.or_eq_true_iff.1 h.named).elim hdirectory.1 hdirectory.2
    rw [if_neg hdirectory]
    -- From here on the mapping is written and counted, and a failure takes it back.
    have hpopped : Same r { r.mapped ⟨hostPort, containerPort, true⟩ hroom with
        portMappings := (r.mapped ⟨hostPort, containerPort, true⟩ hroom).portMappings.pop } :=
      ⟨rfl, Nat.add_sub_cancel _ 1, r.portMappings.below_pop_push _ hroom⟩
    by_cases hallocates : ¬outcome.start.allocates
    · rw [if_pos hallocates]
      exact .inr ⟨fun h => hallocates h.starts.1, _, rfl, hpopped⟩
    rw [if_neg hallocates]
    by_cases hstarts : outcome.start.host.Starts
    · rw [if_pos hstarts]
      obtain ⟨hhost, hcontainer⟩ := not_or.1 havailable
      rw [← not_or, not_not] at hdirectory
      exact .inl ⟨⟨Bool.or_eq_true_iff.2 hdirectory, hvalid, hroom, not_not.1 hhost,
        not_not.1 hcontainer, not_not.1 hallocates, hstarts⟩, rfl⟩
    · rw [if_neg hstarts]
      exact .inr ⟨fun h => hstarts h.starts.2, _, rfl, hpopped⟩

end AddPortMapping

/-- `g_runtime` as `main` finds it, with `port_number` 8080. -/
def initialSession (basePath : Text) : Session :=
  ⟨⟨[], ⟨List.Vector.replicate maxPorts ⟨0, 0, false⟩, 0, Nat.zero_le _⟩, basePath,
    Nat.zero_le _⟩, 8080⟩

end LibPolyCall.Runtime
