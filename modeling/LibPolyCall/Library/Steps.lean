import Mathlib.Tactic.Common

/-!
# Runs of a machine that may get stuck

A machine whose step function is defined on some states and inputs only. `run` gives the state that
a run ends in if all of its steps are defined, and `taken` lists the steps up to the first that is
not, each input with the state that it is taken in. The rules of the file are the inductions over
runs: a run is defined if every step is, and keeps what every step keeps (`run_of_step`), and a
property holds all along a run if every step of it meets a condition, and only then
(`forall_taken_iff`).
-/

namespace Steps

variable {σ ι : Type*}

/-- The state that a run ends in. -/
def run (step : σ → ι → Option σ) : σ → List ι → Option σ
  | s, [] => some s
  | s, i :: is => (step s i).bind fun s' => run step s' is

/-- The steps of a run: each input with the state that it is taken in. -/
def taken (step : σ → ι → Option σ) : σ → List ι → List (σ × ι)
  | _, [] => []
  | s, i :: is => (s, i) :: (step s i).elim [] fun s' => taken step s' is

/-- A run without inputs ends where it starts. -/
@[simp] theorem run_nil (step : σ → ι → Option σ) (s : σ) : run step s [] = some s := rfl

/-- A run is its first step, if that is defined, and then the others. -/
theorem run_cons (step : σ → ι → Option σ) (s : σ) (i : ι) (is : List ι) :
    run step s (i :: is) = (step s i).bind fun s' => run step s' is := rfl

/-- A run without inputs takes no steps. -/
@[simp] theorem taken_nil (step : σ → ι → Option σ) (s : σ) : taken step s [] = [] := rfl

/-- The first step is taken where the run starts, the others behind it if it is defined. -/
theorem taken_cons (step : σ → ι → Option σ) (s : σ) (i : ι) (is : List ι) :
    taken step s (i :: is) = (s, i) :: (step s i).elim [] fun s' => taken step s' is := rfl

/-- A run of one input takes one step. -/
@[simp] theorem taken_singleton (step : σ → ι → Option σ) (s : σ) (i : ι) :
    taken step s [i] = [(s, i)] := by
  rw [taken_cons]
  cases step s i <;> rfl

/-- After a step that is defined, a run goes on. -/
theorem run_cons_some {step : σ → ι → Option σ} {s s' : σ} {i : ι} (h : step s i = some s')
    (is : List ι) : run step s (i :: is) = run step s' is := by
  rw [run_cons, h, Option.bind_some]

/-- After a step that is defined, the other steps are taken. -/
theorem taken_cons_some {step : σ → ι → Option σ} {s s' : σ} {i : ι} (h : step s i = some s')
    (is : List ι) : taken step s (i :: is) = (s, i) :: taken step s' is := by
  rw [taken_cons, h, Option.elim_some]

/-- A run whose first step is not defined is not defined. -/
theorem run_cons_none {step : σ → ι → Option σ} {s : σ} {i : ι} (h : step s i = none)
    (is : List ι) : run step s (i :: is) = none := by
  rw [run_cons, h, Option.bind_none]

section Invariants

variable {step : σ → ι → Option σ} {P : σ → Prop} {C : σ → ι → Prop}

/-- If the steps that meet `C` are defined from the states with `P` and keep `P`, a run whose steps
all meet `C` is defined, and all of its states have `P`. -/
theorem run_of_step (hstep : ∀ s i, P s → C s i → ∃ s', step s i = some s' ∧ P s') :
    ∀ {s : σ} {is : List ι}, P s → (∀ m ∈ taken step s is, C m.1 m.2) →
      (∀ m ∈ taken step s is, P m.1) ∧ ∃ s', run step s is = some s' ∧ P s'
  | s, [], hs, _ => by
    -- The run ends where it starts.
    have hrun : ∃ s', run step s [] = some s' ∧ P s' := ⟨s, rfl, hs⟩
    exact ⟨by simp, hrun⟩
  | s, i :: is, hs, hC => by
    rw [taken_cons, List.forall_mem_cons] at hC
    obtain ⟨t, ht, hPt⟩ := hstep s i hs hC.1
    rw [ht, Option.elim_some] at hC
    obtain ⟨htaken, hrun⟩ := run_of_step hstep hPt hC.2
    rw [taken_cons_some ht, List.forall_mem_cons, run_cons_some ht]
    exact ⟨⟨hs, htaken⟩, hrun⟩

/-- Where a step keeps `P` exactly if it meets `C`, the states of a run all have `P` exactly if its
steps all meet `C`. -/
theorem forall_taken_iff (hstep : ∀ s i s', P s → step s i = some s' → (P s' ↔ C s i)) :
    ∀ {s : σ} {is : List ι} {s' : σ}, P s → run step s is = some s' →
      ((∀ m ∈ taken step s is, P m.1) ∧ P s' ↔ ∀ m ∈ taken step s is, C m.1 m.2)
  | s, [], s', hs, hrun => by
    obtain rfl := Option.some.inj hrun
    simpa using hs
  | s, i :: is, s', hs, hrun => by
    cases hi : step s i with
    | none => rw [run_cons_none hi] at hrun; cases hrun
    | some t =>
      rw [run_cons_some hi] at hrun
      rw [taken_cons_some hi, List.forall_mem_cons, List.forall_mem_cons, ← hstep s i t hs hi]
      constructor
      · rintro ⟨⟨-, hmoves⟩, hend⟩
        have ht : P t := by
          cases is with
          | nil => exact Option.some.inj hrun ▸ hend
          | cons j js => exact hmoves _ List.mem_cons_self
        exact ⟨ht, (forall_taken_iff hstep ht hrun).1 ⟨hmoves, hend⟩⟩
      · rintro ⟨ht, hsteps⟩
        obtain ⟨hmoves, hend⟩ := (forall_taken_iff hstep ht hrun).2 hsteps
        exact ⟨⟨hs, hmoves⟩, hend⟩

end Invariants

end Steps
