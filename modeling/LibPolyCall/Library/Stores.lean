import Mathlib.Logic.Function.Basic
import Mathlib.Tactic.Common

/-!
# Stores to memory

Memory holds a value at each index. A program changes it by stores, each of a value at an index, and
`run` gives the memory after some of them. `block` are the stores of `memcpy`: `run_block` says what
they leave, and `index_of_mem_block` where they go.
-/

namespace Stores

variable {β : Type*}

/-- The memory after some stores. -/
def run (memory : ℕ → β) (stores : List (ℕ × β)) : ℕ → β :=
  stores.foldl (fun memory store => Function.update memory store.1 store.2) memory

/-- The stores of values one behind the other, the first one at an index. -/
def block : ℕ → List β → List (ℕ × β)
  | _, [] => []
  | start, b :: bs => (start, b) :: block (start + 1) bs

/-- No stores leave the memory as it is. -/
@[simp] theorem run_nil (memory : ℕ → β) : run memory [] = memory := rfl

/-- The first store of a run comes first. -/
@[simp] theorem run_cons (memory : ℕ → β) (store : ℕ × β) (stores : List (ℕ × β)) :
    run memory (store :: stores) = run (Function.update memory store.1 store.2) stores := rfl

/-- A run of stores goes on from where another one ended. -/
theorem run_append (memory : ℕ → β) (stores stores' : List (ℕ × β)) :
    run memory (stores ++ stores') = run (run memory stores) stores' :=
  List.foldl_append

/-- Stores at other indices leave a value as it was. -/
theorem run_of_ne : ∀ {stores : List (ℕ × β)} {memory : ℕ → β} {i : ℕ},
    (∀ store ∈ stores, store.1 ≠ i) → run memory stores i = memory i
  | [], _, _, _ => rfl
  | store :: stores, memory, i, h => by
    rw [List.forall_mem_cons] at h
    rw [run_cons, run_of_ne h.2, Function.update_of_ne h.1.symm]

/-- A block is stored from its first index on, and no further than it is long. -/
theorem index_of_mem_block : ∀ {start : ℕ} {bs : List β} {store : ℕ × β},
    store ∈ block start bs → start ≤ store.1 ∧ store.1 < start + bs.length
  | start, b :: bs, store, h => by
    rw [List.length_cons]
    rcases List.mem_cons.1 h with rfl | h
    · dsimp only
      omega
    · have hrest := index_of_mem_block h
      omega

/-- What a block leaves at its own indices, and elsewhere. -/
theorem run_block : ∀ (memory : ℕ → β) (start : ℕ) (bs : List β) (i : ℕ),
    run memory (block start bs) i =
      if i < start then memory i else bs.getD (i - start) (memory i)
  | memory, start, [], i => by
    rw [block, run_nil, List.getD_nil, ite_self]
  | memory, start, b :: bs, i => by
    rw [block, run_cons, run_block]
    dsimp only
    rcases Nat.lt_trichotomy i start with hlt | rfl | hgt
    · rw [if_pos (by omega), if_pos hlt, Function.update_of_ne (Nat.ne_of_lt hlt)]
    · rw [if_pos (by omega), if_neg (Nat.lt_irrefl i), Function.update_self, Nat.sub_self,
        List.getD_cons_zero]
    · obtain ⟨k, rfl⟩ := Nat.exists_eq_add_of_lt hgt
      have hrest : start + k + 1 - (start + 1) = k := by omega
      have hwhole : start + k + 1 - start = k + 1 := by omega
      rw [if_neg (by omega), if_neg (by omega), hrest, hwhole, List.getD_cons_succ,
        Function.update_of_ne (by omega)]

end Stores
