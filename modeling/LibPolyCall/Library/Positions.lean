import Mathlib.Data.List.DropRight
import Mathlib.Tactic.Common

/-!
# Lines and columns

The line and the column of the place behind a text, counted from one, where a symbol ends each line.
A symbol that ends a line starts the next one (`line_concat_self`, `column_concat_self`), and a
piece without it moves the column on (`column_append`).
-/

namespace Positions

variable {α : Type*} [DecidableEq α] {sep : α} {t u : List α}

/-- One more than the lines that have ended. -/
def line (sep : α) (t : List α) : ℕ := 1 + t.count sep

/-- One more than the symbols of the last line. -/
def column (sep : α) (t : List α) : ℕ := 1 + (t.rtakeWhile (· ≠ sep)).length

/-- Each separator of a text is one line more. -/
theorem line_append (sep : α) (t u : List α) : line sep (t ++ u) = line sep t + u.count sep := by
  rw [line, line, List.count_append, Nat.add_assoc]

/-- A piece without the symbol stays in the line. -/
theorem line_append_of_notMem (h : sep ∉ u) : line sep (t ++ u) = line sep t := by
  rw [line_append, List.count_eq_zero_of_not_mem h, Nat.add_zero]

/-- A separator starts a new line. -/
theorem line_concat_self (sep : α) (t : List α) : line sep (t ++ [sep]) = line sep t + 1 := by
  rw [line_append, List.count_singleton_self]

/-- A line starts in column 1. -/
theorem column_concat_self (sep : α) (t : List α) : column sep (t ++ [sep]) = 1 := by
  rw [column, List.rtakeWhile_concat_neg _ _ _ (by simp)]
  rfl

/-- A piece without the symbol moves the column on. -/
theorem column_append (h : sep ∉ u) : column sep (t ++ u) = column sep t + u.length := by
  induction u using List.reverseRecOn with
  | nil => rw [List.append_nil, List.length_nil, Nat.add_zero]
  | append_singleton u b ih =>
    rw [List.mem_append, List.mem_singleton, not_or] at h
    have hb : b ≠ sep := Ne.symm h.2
    rw [column] at ih ⊢
    rw [← List.append_assoc, List.rtakeWhile_concat_pos _ _ _ (by simpa using hb),
      List.length_append, List.length_append, List.length_singleton, ← Nat.add_assoc, ih h.1,
      Nat.add_assoc, column]

end Positions
