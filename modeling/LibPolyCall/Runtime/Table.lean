import LibPolyCall.Library.Steps
import LibPolyCall.Runtime.Runtime

/-!
# The program table

None of the places that append a program to the table looks whether there is room for it. So the
table does not overflow if and only if no more than eight starts succeed between two
`stop_network` (`run_defined_iff`).
-/

namespace LibPolyCall.Runtime

open CStrings Network Scan

/-- The action starts a program that is put into the table. -/
def Appends (s : Session) : Action → Prop
  | .addPortMapping serviceName hostPort containerPort outcome =>
    Admits serviceName hostPort containerPort outcome s.runtime
  | .configLine line outcome => configLine line = .networkStart ∧ outcome.Starts
  | .startNetwork outcome => outcome.Starts
  | .configureNetworkPort _ _ => False
  | .stopNetwork => False

/-- Whether an action appends a program can be decided. -/
instance (s : Session) : DecidablePred (Appends s)
  | .addPortMapping _ _ _ _ => inferInstanceAs (Decidable (Admits _ _ _ _ _))
  | .configLine _ _ => inferInstanceAs (Decidable (_ ∧ _))
  | .startNetwork _ => inferInstanceAs (Decidable (StartOutcome.Starts _))
  | .configureNetworkPort _ _ => inferInstanceAs (Decidable False)
  | .stopNetwork => inferInstanceAs (Decidable False)

/-- The starts that have succeeded since the last `stop_network`, after one more action. -/
def startsAfter (n : ℕ) (m : Session × Action) : ℕ :=
  match m.2 with
  | .stopNetwork => 0
  | action => if Appends m.1 action then n + 1 else n

/-- The starts that have succeeded since the last `stop_network` of a run. -/
def starts (ms : List (Session × Action)) : ℕ := ms.foldl startsAfter 0

/-- What is left is a runtime with this number of programs, or nothing if the table has no room for
them. -/
def Fits (result : Option PPIRuntime) (n : ℕ) : Prop :=
  if n ≤ maxPrograms then ∃ r, result = some r ∧ r.programs.length = n else result = none

/-- A runtime has room for its own programs. -/
theorem fits_some (r : PPIRuntime) : Fits (some r) r.programs.length := by
  rw [Fits, if_pos r.programs_le]
  exact ⟨r, rfl, rfl⟩

/-- With one program more, the table has room for it or not. -/
theorem fits_append (r : PPIRuntime) (program : NetworkProgram) :
    Fits (r.append program) (r.programs.length + 1) := by
  rw [Fits]
  split_ifs with hroom
  · obtain ⟨r', happend, hprograms, -⟩ := PPIRuntime.append_of_lt hroom program
    exact ⟨r', happend, by rw [hprograms, List.length_append, List.length_singleton]⟩
  · exact PPIRuntime.append_of_not_lt hroom program

/-- A start adds one program, if it succeeds. -/
theorem fits_start (outcome : StartOutcome) (port : Option UInt16) (r : PPIRuntime) :
    Fits (start outcome port r)
      (if outcome.Starts then r.programs.length + 1 else r.programs.length) := by
  rw [start]
  split_ifs
  · exact fits_append r _
  · exact fits_some r

/-- A mapping adds one program, if it is admitted. -/
theorem fits_addPortMapping (serviceName : Option CString) (hostPort containerPort : UInt16)
    (outcome : MappingOutcome) (r : PPIRuntime) :
    Fits ((addPortMapping serviceName hostPort containerPort outcome r).map Prod.snd)
      (if Admits serviceName hostPort containerPort outcome r then r.programs.length + 1
      else r.programs.length) := by
  rcases addPortMapping_cases serviceName hostPort containerPort outcome r with
    ⟨hadmits, hresult⟩ | ⟨hadmits, r', hresult, hsame⟩
  · rw [hresult, if_pos hadmits, Option.map_map]
    have hid : Prod.snd ∘ (fun r' : PPIRuntime => (true, r')) = id := rfl
    rw [hid, Option.map_id_fun, id]
    exact fits_append (r.mapped _ hadmits.room) _
  · rw [hresult, if_neg hadmits, Option.map_some, ← hsame.1]
    exact fits_some r'

/-- A step leaves as many programs as starts have succeeded since the last `stop_network`, and has
no result if these are more than the table has room for. -/
theorem step_fits (s : Session) (action : Action) :
    Fits ((step s action).map Session.runtime)
      (startsAfter s.runtime.programs.length (s, action)) := by
  cases action with
  | addPortMapping serviceName hostPort containerPort outcome =>
    have hfits := fits_addPortMapping serviceName hostPort containerPort outcome s.runtime
    rw [step, Option.map_map]
    exact hfits
  | configLine line outcome =>
    have hstarts : startsAfter s.runtime.programs.length (s, .configLine line outcome) =
        if configLine line = .networkStart ∧ outcome.Starts then s.runtime.programs.length + 1
        else s.runtime.programs.length := rfl
    rw [hstarts, step]
    have hsame := fits_some s.runtime
    have hfits := fits_start outcome (some s.portNumber) s.runtime
    generalize configLine line = parsed
    cases parsed with
    | port containerPort => simpa using hsame
    | networkStart => simpa [Function.comp_def] using hfits
    | other => simpa using hsame
  | configureNetworkPort index port =>
    have hfits := fits_some (configure index port s.runtime)
    rw [configure, List.length_modify] at hfits
    exact hfits
  | startNetwork outcome =>
    have hstarts : startsAfter s.runtime.programs.length (s, .startNetwork outcome) =
        if outcome.Starts then s.runtime.programs.length + 1 else s.runtime.programs.length := rfl
    have hfits := fits_start outcome none s.runtime
    rw [hstarts, step]
    simpa [Function.comp_def] using hfits
  | stopNetwork => exact fits_some (stopNetwork s.runtime)

/-- A run from a table with some programs is defined if and only if none of its parts makes them too
many. -/
theorem run_defined_of_length : ∀ (s : Session) (actions : List Action),
    (∃ s', Steps.run step s actions = some s') ↔
      ∀ ms, ms <+: Steps.taken step s actions →
        ms.foldl startsAfter s.runtime.programs.length ≤ maxPrograms
  | s, [] => by
    refine iff_of_true ⟨s, rfl⟩ fun ms hms => ?_
    rw [List.prefix_nil.1 hms]
    exact s.runtime.programs_le
  | s, action :: actions => by
    have hfits := step_fits s action
    rw [Fits] at hfits
    split_ifs at hfits with hroom
    · obtain ⟨r, hr, hlength⟩ := hfits
      obtain ⟨s', hstep, rfl⟩ := Option.map_eq_some_iff.1 hr
      rw [Steps.run_cons_some hstep, Steps.taken_cons_some hstep, run_defined_of_length s' actions,
        hlength]
      -- A part of the run is empty, or it is the first step and a part of the rest.
      constructor
      · intro h ms hms
        rcases List.prefix_cons_iff.1 hms with rfl | ⟨ms', rfl, hms'⟩
        · exact s.runtime.programs_le
        · exact h ms' hms'
      · intro h ms hms
        exact h ((s, action) :: ms) ((List.prefix_cons_inj (s, action)).2 hms)
    · -- The first step has no result, and it alone makes the programs too many.
      have hstep := Option.map_eq_none_iff.1 hfits
      rw [Steps.run_cons_none hstep, Steps.taken_cons, hstep]
      refine iff_of_false (fun ⟨_, h⟩ => by cases h) fun h => hroom ?_
      exact h [(s, action)] (List.prefix_refl _)

/-- The program table does not overflow in a run of `main` if and only if at no point of the run
more than eight starts have succeeded since the last `stop_network`. -/
theorem run_defined_iff (basePath : Text) (actions : List Action) :
    (∃ s, Steps.run step (initialSession basePath) actions = some s) ↔
      ∀ ms, ms <+: Steps.taken step (initialSession basePath) actions → starts ms ≤ maxPrograms :=
  run_defined_of_length (initialSession basePath) actions

/-- A host on which the first ports from 8080 on are busy. -/
def busyHost (busy : ℕ) : Host :=
  ⟨true, fun port => port.toNat < 8080 + busy, false, true, 3 + busy, true, true, true⟩

/-- Nine `start_network` commands. -/
theorem ninth_start_overflows :
    ¬∃ s, Steps.run step (initialSession [])
      ((List.range 9).map fun n => .startNetwork ⟨true, busyHost n⟩) = some s := by
  rintro ⟨s, hs⟩
  have hnone : (Steps.run step (initialSession [])
      ((List.range 9).map fun n => .startNetwork ⟨true, busyHost n⟩)).isNone = true := by
    decide +kernel
  rw [hs] at hnone
  cases hnone

end LibPolyCall.Runtime
