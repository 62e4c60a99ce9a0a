import Mathlib.Logic.Function.Iterate
import Mathlib.Tactic.Common

/-!
# Runs of a machine with outputs

A machine is a step function: in a state, an input gives the next state and an output. A run is
the list of its inputs. `final` is the state that a run ends in, and `moves` lists the steps of a
run, each input with the state that it is taken in, so that "at every step of the run" is a
quantifier over `moves`. `outputs` collects what the steps give.

The rules of the file are the inductions over runs: an invariant that every step keeps
(`final_of_step`), or that every step keeps under a condition that the run's steps meet
(`moves_of_step`); the step at which a property first comes to hold (`exists_move_of_final`); the
inputs that make no difference (`outputs_purge`); two machines that give the same
(`outputs_simulates`); what is taken and not given is kept (`outputs_conserve`); a value that
advances with the steps that are counted (`iterate_count`), or that is given out as it advances
(`outputs_eq_iterates`); and the path that the steps' outputs trace out (`linked_moves`).
-/

namespace Runs

variable {σ ι ω : Type*}

/-- The state that a run ends in. -/
def final (step : σ → ι → σ × ω) : σ → List ι → σ
  | s, [] => s
  | s, i :: is => final step (step s i).1 is

/-- The steps of a run: each input with the state that it is taken in. -/
def moves (step : σ → ι → σ × ω) : σ → List ι → List (σ × ι)
  | _, [] => []
  | s, i :: is => (s, i) :: moves step (step s i).1 is

/-- A run without inputs ends where it starts. -/
@[simp] theorem final_nil (step : σ → ι → σ × ω) (s : σ) : final step s [] = s := rfl

/-- A run goes on from the state that its first step leads to. -/
@[simp] theorem final_cons (step : σ → ι → σ × ω) (s : σ) (i : ι) (is : List ι) :
    final step s (i :: is) = final step (step s i).1 is := rfl

/-- A run without inputs makes no moves. -/
@[simp] theorem moves_nil (step : σ → ι → σ × ω) (s : σ) : moves step s [] = [] := rfl

/-- The first move of a run is made where it starts. -/
@[simp] theorem moves_cons (step : σ → ι → σ × ω) (s : σ) (i : ι) (is : List ι) :
    moves step s (i :: is) = (s, i) :: moves step (step s i).1 is := rfl

/-- A run goes on from where its first part ends. -/
theorem final_append (step : σ → ι → σ × ω) :
    ∀ (s : σ) (is js : List ι), final step s (is ++ js) = final step (final step s is) js
  | _, [], _ => rfl
  | s, i :: is, js => final_append step (step s i).1 is js

/-- The steps of a run are those of its first part and those of the rest. -/
theorem moves_append (step : σ → ι → σ × ω) :
    ∀ (s : σ) (is js : List ι),
      moves step s (is ++ js) = moves step s is ++ moves step (final step s is) js
  | _, [], _ => rfl
  | s, i :: is, js => by
    rw [List.cons_append, moves_cons, moves_cons, List.cons_append, moves_append step _ is js,
      final_cons]

/-- The inputs of the steps of a run are the inputs of the run, one by one. -/
theorem map_snd_moves (step : σ → ι → σ × ω) : ∀ (s : σ) (is : List ι),
    (moves step s is).map Prod.snd = is
  | _, [] => rfl
  | s, i :: is => by rw [moves_cons, List.map_cons, map_snd_moves step _ is]

/-- The inputs of the steps of a run are the inputs of the run. -/
theorem snd_mem_of_mem_moves {step : σ → ι → σ × ω} : ∀ {s : σ} {is : List ι} {m : σ × ι},
    m ∈ moves step s is → m.2 ∈ is
  | s, i :: is, m, hm => by
    rw [moves_cons, List.mem_cons] at hm
    rcases hm with rfl | hm
    · exact List.mem_cons_self
    · exact List.mem_cons_of_mem i (snd_mem_of_mem_moves hm)

/-- Every input of a run is taken in some step. -/
theorem exists_mem_moves {step : σ → ι → σ × ω} : ∀ {s : σ} {is : List ι} {i : ι},
    i ∈ is → ∃ t, (t, i) ∈ moves step s is
  | s, j :: is, i, hi => by
    rw [moves_cons]
    rcases List.mem_cons.1 hi with rfl | hi
    · exact ⟨s, List.mem_cons_self⟩
    · obtain ⟨t, ht⟩ := exists_mem_moves (s := (step s j).1) hi
      exact ⟨t, List.mem_cons_of_mem _ ht⟩

/-- What the steps of a run give, in order. -/
def outputs {α : Type*} (step : σ → ι → σ × ω) (out : σ → ι → List α) (s : σ) (is : List ι) :
    List α :=
  (moves step s is).flatMap fun m => out m.1 m.2

/-- A run without inputs puts nothing out. -/
@[simp] theorem outputs_nil {α : Type*} (step : σ → ι → σ × ω) (out : σ → ι → List α) (s : σ) :
    outputs step out s [] = [] := rfl

/-- What the first step puts out comes first. -/
@[simp] theorem outputs_cons {α : Type*} (step : σ → ι → σ × ω) (out : σ → ι → List α) (s : σ)
    (i : ι) (is : List ι) :
    outputs step out s (i :: is) = out s i ++ outputs step out (step s i).1 is :=
  List.flatMap_cons

/-- The inputs of a run without those that are to be dropped where they are taken. -/
def purge (dropped : σ → ι → Bool) (step : σ → ι → σ × ω) : σ → List ι → List ι
  | _, [] => []
  | s, i :: is =>
    if dropped s i then purge dropped step (step s i).1 is
    else i :: purge dropped step (step s i).1 is

/-- Inputs that neither change the state nor give anything can be dropped. -/
theorem outputs_purge {α : Type*} {step : σ → ι → σ × ω} {out : σ → ι → List α}
    {dropped : σ → ι → Bool} : ∀ (s : σ) (is : List ι),
    (∀ m ∈ moves step s is, dropped m.1 m.2 = true → (step m.1 m.2).1 = m.1 ∧ out m.1 m.2 = []) →
      outputs step out s (purge dropped step s is) = outputs step out s is
  | _, [], _ => rfl
  | s, i :: is, h => by
    rw [moves_cons, List.forall_mem_cons] at h
    have ih := outputs_purge (step s i).1 is h.2
    rw [purge, outputs_cons]
    by_cases hdropped : dropped s i = true
    · -- The rest of the run starts in the same state with the input as without it.
      obtain ⟨hstate, hnone⟩ := h.1 hdropped
      rw [if_pos hdropped, hnone, List.nil_append, ← ih, hstate]
    · rw [if_neg hdropped, outputs_cons, ih]

section Invariants

variable {step : σ → ι → σ × ω} {P : σ → Prop} {C : σ → ι → Prop}

/-- What every step that meets `C` keeps holds in every state of a run whose steps all meet
`C`. -/
theorem moves_of_step (hstep : ∀ s i, P s → C s i → P (step s i).1) :
    ∀ (s : σ) (is : List ι), P s → (∀ m ∈ moves step s is, C m.1 m.2) →
      (∀ m ∈ moves step s is, P m.1) ∧ P (final step s is)
  | s, [], hs, _ => ⟨by simp, hs⟩
  | s, i :: is, hs, hC => by
    simp only [moves_cons, List.forall_mem_cons] at hC ⊢
    obtain ⟨hmoves, hfinal⟩ := moves_of_step hstep _ is (hstep s i hs hC.1) hC.2
    exact ⟨⟨hs, hmoves⟩, hfinal⟩

/-- What every step keeps holds in every state of a run. -/
theorem final_of_step (hstep : ∀ s i, P s → P (step s i).1) (s : σ) (is : List ι) (hs : P s) :
    (∀ m ∈ moves step s is, P m.1) ∧ P (final step s is) :=
  moves_of_step (C := fun _ _ => True) (fun s i h _ => hstep s i h) s is hs (fun _ _ => trivial)

/-- Every step of a run leads to a state of the run: to that of the next step, or to the last
one. -/
theorem next_of_moves : ∀ (s : σ) (is : List ι), (∀ m ∈ moves step s is, P m.1) →
    P (final step s is) → ∀ m ∈ moves step s is, P (step m.1 m.2).1
  | _, [], _, _ => by simp
  | s, i :: is, hmoves, hfinal => by
    rw [moves_cons, List.forall_mem_cons] at hmoves ⊢
    refine ⟨?_, next_of_moves _ is hmoves.2 hfinal⟩
    cases is with
    | nil => exact hfinal
    | cons j js => exact hmoves.2 (_, j) List.mem_cons_self

/-- When every step goes up in a reflexive and transitive relation, every state of a run is below
the one that the run ends in. -/
theorem rel_final_of_step {R : σ → σ → Prop} (hrefl : ∀ s, R s s)
    (htrans : ∀ a b c, R a b → R b c → R a c) (hstep : ∀ s i, R s (step s i).1) :
    ∀ (s : σ) (is : List ι),
      R s (final step s is) ∧ ∀ m ∈ moves step s is, R m.1 (final step s is)
  | s, [] => ⟨hrefl s, by simp⟩
  | s, i :: is => by
    obtain ⟨hstart, hmoves⟩ := rel_final_of_step hrefl htrans hstep (step s i).1 is
    have hs : R s (final step s (i :: is)) := htrans _ _ _ (hstep s i) hstart
    exact ⟨hs, List.forall_mem_cons.2 ⟨hs, hmoves⟩⟩

/-- When a property holds at the end of a run and not at its start, some step of the run brings
it about. -/
theorem exists_move_of_final : ∀ (s : σ) (is : List ι), ¬ P s → P (final step s is) →
    ∃ m ∈ moves step s is, ¬ P m.1 ∧ P (step m.1 m.2).1
  | s, [], hs, hfinal => absurd hfinal hs
  | s, i :: is, hs, hfinal => by
    -- Either the first step brings it about, or the run goes on without it.
    by_cases hi : P (step s i).1
    · exact ⟨(s, i), by simp, hs, hi⟩
    · obtain ⟨m, hm, h⟩ := exists_move_of_final _ is hi hfinal
      exact ⟨m, by simp [hm], h⟩

end Invariants

/-! ## Simulation -/

/-- When a relation between the states of two machines is kept by every input that meets `C`, and
the two give the same where it holds, they give the same along every run of such inputs. -/
theorem outputs_simulates {τ ω' α : Type*} {step : σ → ι → σ × ω} {step' : τ → ι → τ × ω'}
    {out : σ → ι → List α} {out' : τ → ι → List α} {R : σ → τ → Prop} {C : ι → Prop}
    (hstep : ∀ s t i, R s t → C i → out s i = out' t i ∧ R (step s i).1 (step' t i).1) :
    ∀ (s : σ) (t : τ) (is : List ι), R s t → (∀ i ∈ is, C i) →
      outputs step out s is = outputs step' out' t is ∧ R (final step s is) (final step' t is)
  | _, _, [], hR, _ => ⟨rfl, hR⟩
  | s, t, i :: is, hR, hC => by
    rw [List.forall_mem_cons] at hC
    obtain ⟨hout, hnext⟩ := hstep s t i hR hC.1
    obtain ⟨hrest, hfinal⟩ := outputs_simulates hstep _ _ is hnext hC.2
    rw [outputs_cons, outputs_cons, hout, hrest]
    exact ⟨rfl, hfinal⟩

/-! ## What is kept -/

/-- Where every step gives or keeps what it had kept and what it takes, up to a relation that
appending preserves, so does a run. `P` is what the steps keep, and `C` what they are assumed to
meet. -/
theorem outputs_conserve {α : Type*} {step : σ → ι → σ × ω} {out taken : σ → ι → List α}
    {kept : σ → List α} {R : List α → List α → Prop} {P : σ → Prop} {C : σ → ι → Prop}
    (hrefl : ∀ l, R l l) (htrans : ∀ {a b c}, R a b → R b c → R a c)
    (happend : ∀ {a b}, R a b → ∀ l r, R (l ++ a ++ r) (l ++ b ++ r))
    (hP : ∀ s i, P s → C s i → P (step s i).1)
    (hstep : ∀ s i, P s → C s i → R (out s i ++ kept (step s i).1) (kept s ++ taken s i)) :
    ∀ (s : σ) (is : List ι), P s → (∀ m ∈ moves step s is, C m.1 m.2) →
      R (outputs step out s is ++ kept (final step s is)) (kept s ++ outputs step taken s is)
  | s, [], _, _ => by
    rw [outputs_nil, outputs_nil, List.nil_append, List.append_nil]
    exact hrefl _
  | s, i :: is, hs, hC => by
    rw [moves_cons, List.forall_mem_cons] at hC
    have ih := outputs_conserve hrefl htrans happend hP hstep _ is (hP s i hs hC.1) hC.2
    rw [outputs_cons, outputs_cons, final_cons, List.append_assoc, ← List.append_assoc (kept s)]
    -- The rest of the run starts with what the step has kept.
    refine htrans (b := out s i ++ (kept (step s i).1 ++ outputs step taken (step s i).1 is)) ?_ ?_
    · simpa using happend ih (out s i) []
    · simpa using happend (hstep s i hs hC.1) [] (outputs step taken (step s i).1 is)

/-! ## Counters -/

section Counters

variable {α : Type*} {step : σ → ι → σ × ω} {P : σ → Prop} {counted : σ → ι → Bool}

/-- The number of steps of a run that are counted where they are taken. -/
def count (step : σ → ι → σ × ω) (counted : σ → ι → Bool) (s : σ) (is : List ι) : ℕ :=
  (moves step s is).countP fun m => counted m.1 m.2

/-- In a run without inputs there is nothing to count. -/
@[simp] theorem count_nil (s : σ) : count step counted s [] = 0 := rfl

/-- The first step counts for one, if it counts, and then come the others. -/
theorem count_cons (s : σ) (i : ι) (is : List ι) :
    count step counted s (i :: is) =
      count step counted (step s i).1 is + if counted s i then 1 else 0 :=
  List.countP_cons

/-- No step is counted when none is to be counted. -/
theorem count_eq_zero {s : σ} {is : List ι} :
    count step counted s is = 0 ↔ ∀ m ∈ moves step s is, counted m.1 m.2 = false := by
  unfold count
  rw [List.countP_eq_zero]
  simp only [Bool.not_eq_true]

/-- A value that the counted steps advance, and that the other steps keep, advances along a run by
as many steps as are counted. `P` is what the steps keep. -/
theorem iterate_count (value : σ → α) (f : α → α) (hP : ∀ s i, P s → P (step s i).1)
    (hcounted : ∀ s i, P s → counted s i = true → value (step s i).1 = f (value s))
    (hother : ∀ s i, P s → counted s i = false → value (step s i).1 = value s) :
    ∀ (s : σ) (is : List ι), P s → value (final step s is) = f^[count step counted s is] (value s)
  | s, [], _ => rfl
  | s, i :: is, hs => by
    have ih := iterate_count value f hP hcounted hother (step s i).1 is (hP s i hs)
    rw [final_cons, count_cons, ih]
    cases hi : counted s i with
    | true => rw [if_pos rfl, Function.iterate_succ_apply, hcounted s i hs hi]
    | false => rw [if_neg Bool.false_ne_true, Nat.add_zero, hother s i hs hi]

/-- Where every step gives nothing and keeps a value, or gives the value and advances it, a run
gives the values from that of its start on, one after the other. `P` is what the steps keep, and `C`
what they are assumed to meet. -/
theorem outputs_eq_iterates {out : σ → ι → List α} {C : σ → ι → Prop} (value : σ → α) (f : α → α)
    (hP : ∀ s i, P s → C s i → P (step s i).1)
    (hout : ∀ s i, P s → C s i → out s i = [] ∧ value (step s i).1 = value s ∨
      out s i = [value s] ∧ value (step s i).1 = f (value s)) :
    ∀ (s : σ) (is : List ι), P s → (∀ m ∈ moves step s is, C m.1 m.2) →
      ∃ n, outputs step out s is = (List.range n).map fun k => f^[k] (value s)
  | _, [], _, _ => ⟨0, rfl⟩
  | s, i :: is, hs, hC => by
    rw [moves_cons, List.forall_mem_cons] at hC
    obtain ⟨n, hn⟩ := outputs_eq_iterates value f hP hout (step s i).1 is (hP s i hs hC.1) hC.2
    rcases hout s i hs hC.1 with ⟨hnone, hvalue⟩ | ⟨hone, hvalue⟩
    · refine ⟨n, ?_⟩
      rw [outputs_cons, hnone, hn, hvalue, List.nil_append]
    · refine ⟨n + 1, ?_⟩
      rw [outputs_cons, hone, hn, hvalue, List.range_succ_eq_map, List.map_cons, List.map_map]
      rfl

end Counters

/-! ## Paths -/

/-- The edges lead from `a` to `b`: the first leaves `a`, each one leaves where the one before it
arrived, and the last arrives at `b`. -/
def Linked {α : Type*} : α → List (α × α) → α → Prop
  | a, [], b => a = b
  | a, e :: es, b => e.1 = a ∧ Linked e.2 es b

/-- No edges link a place to itself. -/
@[simp] theorem linked_nil {α : Type*} (a b : α) : Linked a [] b ↔ a = b := Iff.rfl

/-- The first edge starts where the path does, and the others go on from its end. -/
@[simp] theorem linked_cons {α : Type*} (a b : α) (e : α × α) (es : List (α × α)) :
    Linked a (e :: es) b ↔ e.1 = a ∧ Linked e.2 es b := Iff.rfl

/-- Paths compose. -/
theorem Linked.append {α : Type*} {a b c : α} :
    ∀ {es fs : List (α × α)}, Linked a es b → Linked b fs c → Linked a (es ++ fs) c
  | [], _, h, h' => by rw [linked_nil] at h; rwa [h]
  | _ :: _, _, h, h' => ⟨h.1, h.2.append h'⟩

/-- When the edges that a step gives lead from the view of its state to the view of the next one,
the edges of a run lead from the view of its start to the view of its end. `P` is what the steps
keep, and `C` what they are assumed to meet. -/
theorem linked_moves {α : Type*} {step : σ → ι → σ × ω} {edge : σ → ι → List (α × α)}
    {view : σ → α} {P : σ → Prop} {C : σ → ι → Prop}
    (hP : ∀ s i, P s → C s i → P (step s i).1)
    (hedge : ∀ s i, P s → C s i → Linked (view s) (edge s i) (view (step s i).1)) :
    ∀ (s : σ) (is : List ι), P s → (∀ m ∈ moves step s is, C m.1 m.2) →
      Linked (view s) (outputs step edge s is) (view (final step s is))
  | _, [], _, _ => rfl
  | s, i :: is, hs, hC => by
    simp only [moves_cons, List.forall_mem_cons] at hC
    rw [outputs_cons, final_cons]
    exact (hedge s i hs hC.1).append
      (linked_moves hP hedge _ is (hP s i hs hC.1) hC.2)

/-- Where a step gives no edge and keeps the view of the state, or one edge that leads to the view
of the next state, the edges of a run form a path exactly if each one leaves from the view of the
state that it is given in. `P` is what the steps keep, and `C` what they are assumed to meet. -/
theorem linked_outputs_iff {α : Type*} {step : σ → ι → σ × ω} {edge : σ → ι → List (α × α)}
    {view : σ → α} {P : σ → Prop} {C : σ → ι → Prop}
    (hP : ∀ s i, P s → C s i → P (step s i).1)
    (hedge : ∀ s i, P s → C s i → edge s i = [] ∧ view (step s i).1 = view s ∨
      ∃ e, edge s i = [e] ∧ e.2 = view (step s i).1) :
    ∀ (s : σ) (is : List ι), P s → (∀ m ∈ moves step s is, C m.1 m.2) →
      (Linked (view s) (outputs step edge s is) (view (final step s is)) ↔
        ∀ m ∈ moves step s is, ∀ e ∈ edge m.1 m.2, e.1 = view m.1)
  | s, [], _, _ => by simp
  | s, i :: is, hs, hC => by
    rw [moves_cons, List.forall_mem_cons] at hC
    have ih := linked_outputs_iff hP hedge (step s i).1 is (hP s i hs hC.1) hC.2
    rw [outputs_cons, final_cons, moves_cons, List.forall_mem_cons]
    rcases hedge s i hs hC.1 with ⟨hnone, hview⟩ | ⟨e, hone, hview⟩
    · rw [hnone, List.nil_append, ← hview, ih]
      simp
    · rw [hone, List.singleton_append, linked_cons, hview, ih]
      simp

end Runs
