import Mathlib.Data.List.TakeDrop
import Mathlib.Tactic.Common

/-!
# Filtering an array in place

A loop that filters an array in place reads its cells one after the other, and writes those that it
keeps to the front. `Compacted` is the invariant of such a loop: in front of the write cursor there
is what was kept so far, the write cursor is not ahead of the read cursor, and from the read cursor
on the cells are the original ones. A round skips its cell (`Compacted.skip`) or keeps it
(`Compacted.keep`).
-/

namespace Compaction

variable {α : Type*} {p : α → Bool} {original cells : List α} {read write : ℕ} {x : α}

/-- The cells in front of `read` have been read, and those of them that `p` keeps are in front of
`write`. -/
structure Compacted (p : α → Bool) (original : List α) (read : ℕ) (cells : List α) (write : ℕ) :
    Prop where
  length_eq : cells.length = original.length
  write_le : write ≤ read
  front : cells.take write = (original.take read).filter p
  behind : cells.drop read = original.drop read

namespace Compacted

/-- Before the first round nothing is kept. -/
theorem start (p : α → Bool) (original : List α) : Compacted p original 0 original 0 :=
  ⟨rfl, Nat.le_refl 0, rfl, rfl⟩

/-- The cell at the read cursor is the original one. -/
theorem getElem?_read (h : Compacted p original read cells write) :
    cells[read]? = original[read]? := by
  rw [← List.head?_drop, h.behind, List.head?_drop]

/-- The round moves the read cursor on. -/
theorem drop_succ (h : Compacted p original read cells write) :
    cells.drop (read + 1) = original.drop (read + 1) := by
  rw [← List.drop_drop, h.behind, List.drop_drop]

/-- A round whose cell is not kept. -/
theorem skip (h : Compacted p original read cells write) (hx : original[read]? = some x)
    (hp : p x = false) : Compacted p original (read + 1) cells write := by
  refine ⟨h.length_eq, Nat.le_succ_of_le h.write_le, ?_, h.drop_succ⟩
  rw [h.front, List.take_add_one, hx, Option.toList_some, List.filter_append,
    List.filter_cons_of_neg (by simp [hp]), List.filter_nil, List.append_nil]

/-- A round whose cell is kept. -/
theorem keep (h : Compacted p original read cells write) (hx : original[read]? = some x)
    (hp : p x = true) : Compacted p original (read + 1) (cells.set write x) (write + 1) := by
  have hread : read < original.length := (List.getElem?_eq_some_iff.1 hx).1
  have hwrite : write < cells.length := by
    rw [h.length_eq]
    exact Nat.lt_of_le_of_lt h.write_le hread
  refine ⟨by rw [List.length_set, h.length_eq], Nat.succ_le_succ h.write_le, ?_, ?_⟩
  · -- What was in front of the write cursor stays there, and the cell comes behind it.
    rw [List.take_add_one, List.take_set_of_le (Nat.le_refl _), List.getElem?_set_self hwrite,
      h.front, List.take_add_one, hx, Option.toList_some, List.filter_append,
      List.filter_cons_of_pos hp, List.filter_nil]
  · -- The cell that is written is not behind the one that was read.
    rw [List.drop_set_of_lt (Nat.lt_succ_of_le h.write_le), h.drop_succ]

/-- A cell that is kept where it is need not be written. -/
theorem keep_self (h : Compacted p original read cells write) (hx : original[read]? = some x)
    (hp : p x = true) (hsame : write = read) :
    Compacted p original (read + 1) cells (write + 1) := by
  have hset : cells.set write x = cells := by
    have hcell : cells[write]? = some x := by rw [hsame, h.getElem?_read, hx]
    obtain ⟨hlt, rfl⟩ := List.getElem?_eq_some_iff.1 hcell
    exact List.set_getElem_self hlt
  have hkeep := h.keep hx hp
  rwa [hset] at hkeep

end Compacted

end Compaction
