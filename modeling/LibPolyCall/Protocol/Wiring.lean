import LibPolyCall.Protocol.Calls
import LibPolyCall.StateMachine.Walk

/-!
# A machine for the session

`polycall_protocol_init` leaves the machine of a session empty: the transitions that
`transition_protocol_state` executes are for the caller to register. A machine is `Wired` when the
transitions of these names lead to the states that they are named after. The calls of `wiring`
register six states and such transitions, and they wire every machine that has no transitions yet
(`wired_wiring`).
-/

namespace LibPolyCall.Protocol

open Bytes CStrings Runs
open StateMachine (PolyCallStateMachine PolyCallTransition)

/-- Every transition that `transition_protocol_state` finds leads to the state that it asks
for. -/
def Wired (sm : PolyCallStateMachine) : Prop :=
  ∀ target name transition, transitionName target = some name →
    sm.findTransition name = some transition → transition.toState = target.code

/-- The state that the transition to a state leaves, in the order of a session. -/
def wiredFrom : ProtocolState → ProtocolState
  | .init | .handshake => .init
  | .auth => .handshake
  | .ready => .auth
  | .error | .closed => .ready

/-- The calls that register a state for each protocol state, and the transitions to them. -/
def wiring : List StateMachine.Op :=
  List.replicate 6 (.addState (some (CString.ofChars [])) 0 0 false) ++
    [ProtocolState.handshake, .auth, .ready, .error, .closed].map fun target =>
      .addTransition (transitionName target) (wiredFrom target).code target.code 0 0

/-- A transition that has the name of a protocol state leads there. -/
def LeadsByName (transition : PolyCallTransition) : Prop :=
  ∀ target name, transitionName target = some name → transition.name.text = name.bytes →
    transition.toState = target.code

/-- A machine whose transitions all lead where their names say is wired. -/
theorem wired_of_leadsByName {sm : PolyCallStateMachine}
    (h : ∀ transition ∈ sm.transitions, LeadsByName transition) : Wired sm := by
  intro target name transition hname hfound
  have hmem : transition ∈ sm.transitions := List.mem_of_find?_eq_some hfound
  have htext : transition.name.text = name.bytes := by simpa using List.find?_some hfound
  exact h transition hmem target name hname htext

/-- A name is that of the transition to one state. -/
theorem transitionName_inj {a b : ProtocolState} {name : CString}
    (ha : transitionName a = some name) (hb : transitionName b = some name) : a = b := by
  cases a <;> cases ha <;> cases b <;> first | rfl | exact absurd hb (by decide)

/-- The names of the transitions fit into the table. -/
theorem length_transitionName {target : ProtocolState} {name : CString}
    (h : transitionName target = some name) : name.bytes.length < StateMachine.maxNameLength := by
  cases target <;> cases h <;> decide

/-- `add_transition` under the name of a state and to that state keeps all transitions leading
where their names say. -/
theorem addTransition_leadsByName {sm : PolyCallStateMachine} (target : ProtocolState)
    (fromState : UInt32) (h : ∀ transition ∈ sm.transitions, LeadsByName transition) :
    ∀ transition ∈ (StateMachine.addTransition sm (transitionName target) fromState target.code
      0 0).2.transitions, LeadsByName transition := by
  cases hname : transitionName target with
  | none => exact h
  | some name =>
    simp only [StateMachine.addTransition]
    split_ifs
    · exact h
    · exact h
    · exact h
    · intro transition hmem
      rcases List.mem_append.1 hmem with hold | hnew
      · exact h transition hold
      rw [List.mem_singleton] at hnew
      intro other otherName hother htext
      have hlength := length_transitionName hname
      have hcopied : name.bytes = otherName.bytes := by
        rw [← htext, hnew, CharArray.text_copy, List.take_of_length_le (by omega)]
      obtain rfl : name = otherName := by
        cases name
        cases otherName
        simpa using hcopied
      rw [hnew, transitionName_inj hname hother]

/-- The calls of `wiring` wire a machine that has no transitions yet. -/
theorem wired_wiring (o : ByteOrder) (host : StateMachine.Host) {sm : PolyCallStateMachine}
    (hnew : sm.transitions = []) :
    Wired (final (StateMachine.step o) sm (wiring.map (host, ·))) := by
  refine wired_of_leadsByName ?_
  refine (moves_of_step (P := fun sm => ∀ transition ∈ sm.transitions, LeadsByName transition)
    (C := fun _ (call : StateMachine.Host × StateMachine.Op) => call.2 ∈ wiring) ?_ sm _
    (by simp [hnew]) ?_).2
  · intro sm call hleads hcall
    rcases List.mem_append.1 hcall with hstate | htransition
    · -- A registered state leaves the transitions alone.
      obtain ⟨host, op⟩ := call
      obtain rfl := List.eq_of_mem_replicate hstate
      simp only [StateMachine.step, StateMachine.addState]
      split_ifs <;> exact hleads
    · obtain ⟨host, op⟩ := call
      obtain ⟨target, -, rfl⟩ := List.mem_map.1 htransition
      exact addTransition_leadsByName target _ hleads
  · intro m hm
    obtain ⟨op, hop, heq⟩ := List.mem_map.1 (snd_mem_of_mem_moves hm)
    rwa [← heq]

/-- A host that delivers every packet, and whose functions all answer yes. -/
def openHost : Host where
  now := 0
  guard _ _ _ := true
  integrityCheck _ _ := true
  netSend packet := packet.length
  paddingByte := 0

/-- A new machine, wired. -/
def wiredMachine : PolyCallStateMachine :=
  final (StateMachine.step .little) ⟨[], [], 0, 1, true, 0, 0, 0⟩
    (wiring.map (openHost.toHost, ·))

/-- A session on a wired machine, with its five callbacks in place. -/
def wiredSession : ProtocolContextInternal where
  base :=
    { pcCtx := 1, stateMachine := some wiredMachine, endpoint := 1, nextSequence := 1,
      state := .init, userData := 0 }
  callbacks := ⟨1, 2, 3, 4, 5⟩
  lastError := CharArray.zeros _

end LibPolyCall.Protocol
