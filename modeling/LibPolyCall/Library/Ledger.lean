import Mathlib.Data.List.Basic
import Mathlib.Tactic.Common

/-!
# Ledgers of resources

The acquisitions and the releases of some resources, in the order in which they happen. A resource
is settled if each of its acquisitions is followed by its release before anything else is done to
it, and it is out if this holds up to a last acquisition. `Accounts` says which of the two it is by
whether the resource has an owner, and its rules follow the resource along the ledger.
-/

namespace Ledger

variable {ρ : Type}

/-- An entry of a ledger. -/
inductive Use (ρ : Type) where
  | acquire (r : ρ)
  | release (r : ρ)
deriving DecidableEq, Repr

/-- The resource of an entry. -/
def Use.resource : Use ρ → ρ
  | acquire r => r
  | release r => r

variable [DecidableEq ρ]

/-- The entries of one resource. -/
def history (r : ρ) (us : List (Use ρ)) : List (Use ρ) := us.filter fun u => u.resource = r

/-- A number of acquisitions, each with its release. -/
def cycles (r : ρ) : ℕ → List (Use ρ)
  | 0 => []
  | n + 1 => cycles r n ++ [.acquire r, .release r]

/-- Each acquisition of the resource is followed by its release, exactly once. -/
def Settled (r : ρ) (us : List (Use ρ)) : Prop := ∃ n, history r us = cycles r n

/-- The same up to the last acquisition, which is not followed by a release. -/
def Out (r : ρ) (us : List (Use ρ)) : Prop := ∃ n, history r us = cycles r n ++ [.acquire r]

/-- The last entry of the resource is an acquisition. -/
def isOut (r : ρ) (us : List (Use ρ)) : Bool := (history r us).getLast? = some (.acquire r)

/-- The resource is out if it is owned, and else it is settled. -/
def Accounts (r : ρ) (us : List (Use ρ)) (owned : Prop) : Prop :=
  owned ∧ Out r us ∨ ¬owned ∧ Settled r us

variable {r : ρ} {us : List (Use ρ)} {u : Use ρ} {owned owned' : Prop}

/-- A use of another resource is not in the history of this one. -/
theorem history_concat_of_ne (hu : u.resource ≠ r) : history r (us ++ [u]) = history r us := by
  simp [history, hu]

/-- A use of a resource comes last in its history. -/
theorem history_concat (hu : u.resource = r) : history r (us ++ [u]) = history r us ++ [u] := by
  simp [history, hu]

/-- A resource that is out is seen to be out. -/
theorem isOut_of_out (h : Out r us) : isOut r us = true := by
  obtain ⟨n, hn⟩ := h
  rw [isOut, hn, List.getLast?_concat, decide_eq_true_eq]

/-- A resource that is settled is seen to be in. -/
theorem isOut_of_settled (h : Settled r us) : isOut r us = false := by
  obtain ⟨n, hn⟩ := h
  rw [isOut, hn, decide_eq_false_iff_not]
  cases n with
  | zero => simp [cycles]
  | succ n => simp [cycles]

/-- Before any use, what is not owned is accounted for. -/
theorem accounts_nil (h : ¬owned) : Accounts r [] owned := .inr ⟨h, 0, rfl⟩

namespace Accounts

/-- Being accounted for depends only on whether the resource is owned. -/
theorem congr (h : Accounts r us owned) (howned : owned ↔ owned') : Accounts r us owned' := by
  rwa [propext howned] at h

/-- What is accounted for and not owned is settled. -/
theorem settled (h : Accounts r us owned) (howned : ¬owned) : Settled r us :=
  (h.resolve_left fun h => howned h.1).2

/-- A resource is out in the ledger if and only if it is owned. -/
theorem isOut_iff (h : Accounts r us owned) : isOut r us = true ↔ owned := by
  rcases h with ⟨howned, hout⟩ | ⟨howned, hsettled⟩
  · exact iff_of_true (isOut_of_out hout) howned
  · rw [isOut_of_settled hsettled]
    exact iff_of_false Bool.false_ne_true howned

/-- Entries of other resources make no difference. -/
theorem other (h : Accounts r us owned) (hu : u.resource ≠ r) : Accounts r (us ++ [u]) owned := by
  rw [Accounts, Out, Settled, history_concat_of_ne hu]
  exact h

/-- Acquiring what was not owned keeps the account. -/
theorem acquire (h : Accounts r us owned) (howned : ¬owned) (howned' : owned') :
    Accounts r (us ++ [.acquire r]) owned' := by
  obtain ⟨n, hn⟩ := h.settled howned
  have hlast : history r (us ++ [.acquire r]) = history r us ++ [.acquire r] := history_concat rfl
  exact .inl ⟨howned', n, by rw [hlast, hn]⟩

/-- Releasing what was owned keeps the account. -/
theorem release (h : Accounts r us owned) (howned : owned) (howned' : ¬owned') :
    Accounts r (us ++ [.release r]) owned' := by
  obtain ⟨n, hn⟩ := (h.resolve_right fun h => h.1 howned).2
  have hlast : history r (us ++ [.release r]) = history r us ++ [.release r] := history_concat rfl
  exact .inr ⟨howned', n + 1,
    by rw [hlast, hn, cycles, List.append_assoc, List.singleton_append]⟩

end Accounts

end Ledger
