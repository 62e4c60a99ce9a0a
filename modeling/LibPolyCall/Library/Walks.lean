import Mathlib.Logic.Relation
import Mathlib.Tactic.Common

/-!
# Machines that go on until they end

A machine without input, as a relation: from a state it goes on to one other, or it ends with one
outcome, or it is stuck. `Reaches` and `Leads` say where it comes and what it ends with. From the
states on its way a machine leads to the same outcome (`Reaches.leads`), of two of them one is on
the way to the other (`Reaches.total`), and none lies in the middle of a step of a measure that each
step moves on (`Reaches.cases`).
-/

namespace Walks

open Relation

/-- What a machine does: in a state where it ends it does not go on. -/
structure Machine (σ ω : Type*) where
  step : σ → σ → Prop
  ends : σ → ω → Prop
  step_unique : ∀ {s s' s'' : σ}, step s s' → step s s'' → s' = s''
  ends_unique : ∀ {s : σ} {o o' : ω}, ends s o → ends s o' → o = o'
  not_step : ∀ {s s' : σ} {o : ω}, ends s o → ¬step s s'

namespace Machine

variable {σ ω : Type*} {m : Machine σ ω} {s s' s'' t : σ} {o o' : ω}

/-- The machine comes from a state to another. -/
def Reaches (m : Machine σ ω) : σ → σ → Prop := ReflTransGen m.step

/-- From a state the machine comes to an end. -/
def Leads (m : Machine σ ω) (s : σ) (o : ω) : Prop := ∃ last, m.Reaches s last ∧ m.ends last o

/-- A machine that ends in a state leads from it to this end only. -/
theorem leads_iff_of_ends (h : m.ends s o') : m.Leads s o ↔ o' = o := by
  constructor
  · rintro ⟨last, hreach, hends⟩
    rcases hreach.cases_head with rfl | ⟨s', hstep, -⟩
    · exact m.ends_unique h hends
    · exact absurd hstep (m.not_step h)
  · rintro rfl
    exact ⟨s, .refl, h⟩

/-- A step changes nothing about what a machine leads to. -/
theorem leads_iff_of_step (h : m.step s s') : m.Leads s o ↔ m.Leads s' o := by
  constructor
  · rintro ⟨last, hreach, hends⟩
    rcases hreach.cases_head with rfl | ⟨s'', hstep, hreach'⟩
    · exact absurd h (m.not_step hends)
    · exact ⟨last, m.step_unique h hstep ▸ hreach', hends⟩
  · rintro ⟨last, hreach, hends⟩
    exact ⟨last, .head h hreach, hends⟩

/-- A machine that is stuck leads to nothing. -/
theorem not_leads_of_stuck (hends : ¬m.ends s o) (hstep : ∀ s', ¬m.step s s') : ¬m.Leads s o := by
  rintro ⟨last, hreach, hlast⟩
  rcases hreach.cases_head with rfl | ⟨s', hgo, -⟩
  · exact hends hlast
  · exact hstep s' hgo

/-- From the states on its way a machine leads to the same outcome. -/
theorem Reaches.leads (h : m.Reaches s s') (hleads : m.Leads s o) : m.Leads s' o := by
  induction h with
  | refl => exact hleads
  | tail _ hstep ih => exact (leads_iff_of_step hstep).1 ih

/-- Of two states on its way one leads to the other. -/
theorem Reaches.total (h : m.Reaches s s') (h' : m.Reaches s s'') :
    m.Reaches s' s'' ∨ m.Reaches s'' s' :=
  ReflTransGen.total_of_right_unique (fun _ _ _ => m.step_unique) h h'

/-- A machine that ends after its first step comes to no other states. -/
theorem Reaches.eq_or_eq (h : m.Reaches s t) (hgo : m.step s s') (hends : m.ends s' o) :
    t = s ∨ t = s' := by
  rcases h.cases_head with rfl | ⟨next, hnext, hreach⟩
  · exact .inl rfl
  · obtain rfl := m.step_unique hgo hnext
    rcases hreach.cases_head with rfl | ⟨last, hlast, -⟩
    · exact .inr rfl
    · exact absurd hlast (m.not_step hends)

/-- What every step moves on in a preorder is moved on along the way. -/
theorem Reaches.rel {α : Type*} {r : α → α → Prop} (view : σ → α) (hrefl : ∀ a, r a a)
    (htrans : ∀ a b c, r a b → r b c → r a c) (hstep : ∀ s s', m.step s s' → r (view s) (view s'))
    (h : m.Reaches s s') : r (view s) (view s') := by
  induction h with
  | refl => exact hrefl _
  | tail _ hgo ih => exact htrans _ _ _ ih (hstep _ _ hgo)

/-- Where each step makes a measure larger, a state on the way is in front of a step, at its start,
or behind it. -/
theorem Reaches.cases {measure : σ → ℕ} (hstep : ∀ s s', m.step s s' → measure s < measure s')
    (h : m.Reaches t s) (h' : m.Reaches t s') (hgo : m.step s s'') :
    measure s' < measure s ∨ s' = s ∨ measure s'' ≤ measure s' := by
  have hle : ∀ a b, m.Reaches a b → measure a ≤ measure b := fun a b hab =>
    hab.rel measure Nat.le_refl (fun _ _ _ => Nat.le_trans)
      fun _ _ hgo => Nat.le_of_lt (hstep _ _ hgo)
  rcases h.total h' with hreach | hreach
  · rcases hreach.cases_head with rfl | ⟨next, hnext, hreach⟩
    · exact .inr (.inl rfl)
    · obtain rfl := m.step_unique hgo hnext
      exact .inr (.inr (hle _ _ hreach))
  · rcases hreach.cases_head with rfl | ⟨next, hnext, hreach⟩
    · exact .inr (.inl rfl)
    · exact .inl (Nat.lt_of_lt_of_le (hstep _ _ hnext) (hle _ _ hreach))

end Machine

end Walks
