import Mathlib.Data.List.DropRight
import Mathlib.Data.Vector.Basic
import Mathlib.Tactic.Common

/-!
# A window of fixed slots

An array of slots with the number of those that are in use. Something new is written to the next
slot while there is one, and afterwards to the last slot, from which the others have been moved
down. So the slots that are in use hold the last things that were written, as many as there are
slots (`map_items_push`).
-/

/-- An array of slots, and how many are in use. -/
structure Window (α : Type*) (n : ℕ) where
  slots : List.Vector α n
  count : ℕ
  /-- No more slots are in use than there are. -/
  count_le : count ≤ n

namespace Window

variable {α β : Type*} {n : ℕ}

/-- What the slots hold that are in use. -/
def items (w : Window α n) : List α := w.slots.toList.take w.count

/-- The next slot written to, or the last one behind the others moved down by one. A slot is written
over what it holds. -/
def push (w : Window α n) (write : α → α) : Window α n :=
  if h : w.count < n then
    { slots := w.slots.set ⟨w.count, h⟩ (write (w.slots.get ⟨w.count, h⟩))
      count := w.count + 1
      count_le := h }
  else
    { slots := ⟨w.slots.toList.drop 1 ++ (w.slots.toList.drop (n - 1)).map write, by
        rw [List.length_append, List.length_map, List.length_drop, List.length_drop,
          List.Vector.toList_length]
        omega⟩
      count := w.count
      count_le := w.count_le }

/-- A window has as many items as it counts. -/
theorem length_items (w : Window α n) : w.items.length = w.count := by
  rw [items, List.length_take, List.Vector.toList_length, Nat.min_eq_left w.count_le]

/-- What is written comes last, and the first goes when there is no slot left for it. -/
theorem map_items_push (w : Window α n) (hn : 0 < n) {write : α → α} {view : α → β} {b : β}
    (hview : ∀ a, view (write a) = b) :
    (w.push write).items.map view = (w.items.map view ++ [b]).rtake n := by
  have hlength : w.slots.toList.length = n := w.slots.toList_length
  have hitems := w.length_items
  rw [List.rtake, List.length_append, List.length_map, List.length_singleton, hitems]
  unfold push
  split_ifs with h
  · -- There is a slot left, and nothing goes.
    have hlt : w.count < w.slots.toList.length := by rw [hlength]; exact h
    rw [items, Nat.sub_eq_zero_of_le h, List.drop_zero, List.Vector.toList_set, List.take_add_one,
      List.getElem?_set_self hlt, List.take_set_of_le (Nat.le_refl _), List.map_append]
    simp only [items, Option.toList_some, List.map_cons, List.map_nil, hview]
  · have hfull : w.count = n := Nat.le_antisymm w.count_le (Nat.not_lt.1 h)
    have hall : w.items = w.slots.toList := by
      rw [items, hfull, List.take_of_length_le (Nat.le_of_eq hlength)]
    obtain ⟨last, hlast⟩ : ∃ last, w.slots.toList.drop (n - 1) = [last] := by
      rw [← List.length_eq_one_iff, List.length_drop, hlength]
      omega
    have hmoved : (w.slots.toList.drop 1 ++ (w.slots.toList.drop (n - 1)).map write).length ≤
        w.count := by
      rw [List.length_append, List.length_map, List.length_drop, List.length_drop, hlength]
      omega
    have hone : 1 ≤ (w.slots.toList.map view).length := by
      rw [List.length_map, hlength]
      exact hn
    show (List.take w.count (w.slots.toList.drop 1 ++ _)).map view = _
    rw [List.take_of_length_le hmoved, hall, hfull, Nat.add_sub_cancel_left,
      List.drop_append_of_le_length hone, List.map_append, hlast,
      List.map_singleton, List.map_singleton, hview, List.map_drop]

end Window

/-- The last of what is left and of what is new are the last of all. -/
theorem List.rtake_rtake_append {α : Type*} (l m : List α) (n : ℕ) :
    (l.rtake n ++ m).rtake n = (l ++ m).rtake n := by
  unfold List.rtake
  rw [List.length_append, List.length_append, List.length_drop, List.drop_append, List.drop_append,
    List.drop_drop, List.length_drop]
  congr 2 <;> omega
