import Mathlib.Computability.Language

/-!
# Regular languages of texts

The pieces of a regular expression as languages: a symbol of a kind, an optional part, and a part
that comes once or more often, with what their words are. `LongestPrefix` is the word of a language
that a text starts with when none that it starts with is longer.
-/

namespace Languages

open Computability

variable {α : Type*} {l : Language α} {p : α → Bool} {a : α} {w : List α}

/-- One symbol of a kind. -/
def symbol (p : α → Bool) : Language α := {w | ∃ a, p a = true ∧ w = [a]}

/-- An optional part. -/
def opt (l : Language α) : Language α := 1 + l

/-- A part once or more often. -/
def plus (l : Language α) : Language α := l * l∗

/-- An optional part is empty or a word of the language. -/
theorem mem_opt : w ∈ opt l ↔ w = [] ∨ w ∈ l := Language.mem_add 1 l w

/-- One symbol in front of a word. -/
theorem mem_symbol_mul : w ∈ symbol p * l ↔ ∃ a, p a = true ∧ ∃ x ∈ l, w = a :: x := by
  rw [Language.mem_mul]
  constructor
  · rintro ⟨s, ⟨a, ha, rfl⟩, x, hx, rfl⟩
    exact ⟨a, ha, x, hx, rfl⟩
  · rintro ⟨a, ha, x, hx, rfl⟩
    exact ⟨[a], ⟨a, ha, rfl⟩, x, hx, rfl⟩

/-- A word of a repeated part that is not empty starts with a word of the part. -/
theorem cons_mem_kstar : a :: w ∈ l∗ ↔ ∃ x y, w = x ++ y ∧ a :: x ∈ l ∧ y ∈ l∗ := by
  constructor
  · intro h
    obtain ⟨parts, heq, hparts⟩ := Language.mem_kstar_iff_exists_nonempty.1 h
    cases parts with
    | nil => cases heq
    | cons part parts =>
      obtain ⟨hpart, hne⟩ := hparts part List.mem_cons_self
      obtain ⟨b, x, rfl⟩ := List.exists_cons_of_ne_nil hne
      obtain ⟨rfl, rfl⟩ := List.cons.inj heq
      refine ⟨x, parts.flatten, rfl, hpart, Language.join_mem_kstar fun y hy => ?_⟩
      exact (hparts y (List.mem_cons_of_mem _ hy)).1
  · rintro ⟨x, y, rfl, hx, hy⟩
    have happend := Language.append_mem_mul hx hy
    rw [← Language.one_add_self_mul_kstar_eq_kstar, Language.mem_add]
    exact .inr happend

/-- Symbols of a kind, as many as there are. -/
theorem mem_kstar_symbol : w ∈ (symbol p)∗ ↔ ∀ a ∈ w, p a = true := by
  induction w with
  | nil => exact iff_of_true (Language.nil_mem_kstar _) (List.forall_mem_nil _)
  | cons a w ih =>
    rw [cons_mem_kstar, List.forall_mem_cons]
    constructor
    · rintro ⟨x, y, rfl, ⟨b, hb, heq⟩, hy⟩
      obtain ⟨rfl, rfl⟩ := List.cons.inj heq
      exact ⟨hb, ih.1 hy⟩
    · rintro ⟨ha, hw⟩
      exact ⟨[], w, rfl, ⟨a, ha, rfl⟩, ih.2 hw⟩

/-- Symbols of a kind, one or more. -/
theorem mem_plus_symbol : w ∈ plus (symbol p) ↔ w ≠ [] ∧ ∀ a ∈ w, p a = true := by
  rw [plus, Language.mem_mul]
  constructor
  · rintro ⟨x, ⟨a, ha, rfl⟩, y, hy, rfl⟩
    exact ⟨List.cons_ne_nil _ _, List.forall_mem_cons.2 ⟨ha, mem_kstar_symbol.1 hy⟩⟩
  · rintro ⟨hne, hw⟩
    obtain ⟨a, y, rfl⟩ := List.exists_cons_of_ne_nil hne
    rw [List.forall_mem_cons] at hw
    exact ⟨[a], ⟨a, hw.1, rfl⟩, y, mem_kstar_symbol.2 hw.2, rfl⟩

/-- The first symbols of a text, as many as the longest word that it starts with has. -/
structure LongestPrefix (l : Language α) (u : List α) (n : ℕ) : Prop where
  le : n ≤ u.length
  mem : u.take n ∈ l
  longest : ∀ m, m ≤ u.length → u.take m ∈ l → m ≤ n

/-- The longest word in front of a text that is given by its pieces. -/
theorem longestPrefix_append {u v : List α} (hmem : u ∈ l)
    (hlongest : ∀ x y, x ∈ l → x ++ y = u ++ v → x.length ≤ u.length) :
    LongestPrefix l (u ++ v) u.length := by
  refine ⟨?_, ?_, fun m hm hx => ?_⟩
  · rw [List.length_append]
    exact Nat.le_add_right _ _
  · rwa [List.take_left]
  · have hle := hlongest _ ((u ++ v).drop m) hx (List.take_append_drop m _)
    rwa [List.length_take, Nat.min_eq_left hm] at hle

end Languages
