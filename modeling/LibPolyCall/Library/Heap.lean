import Mathlib.Data.Finset.Basic
import Mathlib.Data.List.ReduceOption
import Mathlib.Tactic.Common

/-!
# Allocated memory

A heap is the set of the blocks that are allocated, and a pointer is a block with an offset in it.
`malloc` gives a block that was never given before, and `free` is defined for a null pointer and for
one to the start of an allocated block. A program that allocates is a function of the heap that is
undefined where a `free` is. `freeAll_iff` says when a list of pointers can be freed one after the
other and what is left, and `Owns` that the blocks allocated are those of some pointers and those of
others.
-/

/-- A pointer to a block, and to an offset in it. -/
structure Pointer where
  block : ℕ
  offset : ℕ
deriving DecidableEq, Repr

/-- The blocks that are allocated. -/
structure Heap where
  live : Finset ℕ
  /-- The name of the next block. -/
  next : ℕ
  /-- It is new. -/
  lt_next : ∀ b ∈ live, b < next

namespace Heap

/-- A program that allocates and frees, undefined where it frees what it must not. -/
abbrev Mem (α : Type) := StateT Heap Option α

/-- `malloc`, where it succeeds. -/
def malloc : Mem Pointer := fun h =>
  some (⟨h.next, 0⟩, ⟨insert h.next h.live, h.next + 1, by
    intro b hb
    rcases Finset.mem_insert.1 hb with rfl | hb
    · exact Nat.lt_succ_self _
    · exact (h.lt_next b hb).trans (Nat.lt_succ_self _)⟩)

/-- The heap without a block. -/
def erase (h : Heap) (b : ℕ) : Heap :=
  ⟨h.live.erase b, h.next, fun c hc => h.lt_next c (Finset.mem_of_mem_erase hc)⟩

/-- `free`. -/
def free : Option Pointer → Mem Unit
  | none => pure ()
  | some p => fun h =>
    if p.offset = 0 ∧ p.block ∈ h.live then some ((), h.erase p.block) else none

/-- Some pointers freed one after the other. -/
def freeAll : List (Option Pointer) → Mem Unit
  | [] => pure ()
  | p :: ps => do
    free p
    freeAll ps

variable {h h' : Heap} {α β : Type}

/-- Two operations in turn are defined just if the second is defined where the first ends. -/
theorem bind_eq_some {first : Mem α} {second : α → Mem β} {b : β} :
    (first >>= second).run h = some (b, h') ↔
      ∃ a between, first.run h = some (a, between) ∧ (second a).run between = some (b, h') := by
  rw [StateT.run_bind, Option.bind_eq_bind, Option.bind_eq_some_iff, Prod.exists]

/-- `free` is defined for the start of a live block, and then it removes the block. -/
theorem free_some_iff {p : Pointer} :
    (free (some p)).run h = some ((), h') ↔
      p.offset = 0 ∧ p.block ∈ h.live ∧ h.erase p.block = h' := by
  rw [free, StateT.run]
  split
  next hp =>
    rw [Option.some.injEq, Prod.mk.injEq]
    exact ⟨fun heq => ⟨hp.1, hp.2, heq.2⟩, fun heq => ⟨rfl, heq.2.2⟩⟩
  next hp => exact ⟨fun heq => (by cases heq), fun hq => absurd ⟨hq.1, hq.2.1⟩ hp⟩

/-- The other blocks stay live. -/
theorem mem_erase {b c : ℕ} : c ∈ (h.erase b).live ↔ c ≠ b ∧ c ∈ h.live := Finset.mem_erase

/-- The first pointer is freed first. -/
theorem freeAll_cons (p : Option Pointer) (ps : List (Option Pointer)) :
    freeAll (p :: ps) = (do free p; freeAll ps) := rfl

/-- Two lists of pointers are freed one after the other. -/
theorem freeAll_append (ps qs : List (Option Pointer)) :
    freeAll (ps ++ qs) = (do freeAll ps; freeAll qs) := by
  induction ps with
  | nil => rfl
  | cons p ps ih => rw [List.cons_append, freeAll_cons, freeAll_cons, ih, bind_assoc]

/-- The pointers are to the starts of allocated blocks, each to one of its own. -/
def Freeable (h : Heap) (ps : List Pointer) : Prop :=
  (∀ p ∈ ps, p.offset = 0 ∧ p.block ∈ h.live) ∧ (ps.map Pointer.block).Nodup

/-- A list can be freed just if its first pointer can, and then the others. -/
theorem freeable_cons_iff {p : Pointer} {ps : List Pointer} :
    h.Freeable (p :: ps) ↔
      (p.offset = 0 ∧ p.block ∈ h.live) ∧ (h.erase p.block).Freeable ps := by
  simp only [Freeable, List.forall_mem_cons, List.map_cons, List.nodup_cons, mem_erase,
    List.mem_map, not_exists, not_and]
  constructor
  · rintro ⟨⟨hp, hps⟩, hnew, hnodup⟩
    exact ⟨hp, fun q hq => ⟨(hps q hq).1, hnew q hq, (hps q hq).2⟩, hnodup⟩
  · rintro ⟨hp, hps, hnodup⟩
    exact ⟨⟨hp, fun q hq => ⟨(hps q hq).1, (hps q hq).2.2⟩⟩, fun q hq => (hps q hq).2.1, hnodup⟩

/-- Pointers can be freed one after the other just if they are freeable. -/
theorem freeAll_iff {ps : List (Option Pointer)} {h : Heap} :
    (∃ h', (freeAll ps).run h = some ((), h')) ↔ h.Freeable ps.reduceOption := by
  induction ps generalizing h with
  | nil => exact ⟨fun _ => ⟨by simp, by simp⟩, fun _ => ⟨h, rfl⟩⟩
  | cons p ps ih =>
    rw [freeAll_cons]
    simp only [bind_eq_some]
    cases p with
    | none =>
      rw [List.reduceOption_cons_of_none, ← ih]
      constructor
      · rintro ⟨h', a, between, hfree, hrest⟩
        cases hfree
        exact ⟨h', hrest⟩
      · rintro ⟨h', hrest⟩
        exact ⟨h', (), h, rfl, hrest⟩
    | some p =>
      rw [List.reduceOption_cons_of_some, freeable_cons_iff, ← ih]
      constructor
      · rintro ⟨h', a, between, hfree, hrest⟩
        obtain ⟨hoffset, hlive, rfl⟩ := free_some_iff.1 hfree
        exact ⟨⟨hoffset, hlive⟩, h', hrest⟩
      · rintro ⟨⟨hoffset, hlive⟩, h', hrest⟩
        exact ⟨h', (), _, free_some_iff.2 ⟨hoffset, hlive, rfl⟩, hrest⟩

/-- What is left are the other blocks. -/
theorem mem_of_freeAll {ps : List (Option Pointer)} {h : Heap}
    (hfree : (freeAll ps).run h = some ((), h')) (b : ℕ) :
    b ∈ h'.live ↔ b ∈ h.live ∧ b ∉ ps.reduceOption.map Pointer.block := by
  induction ps generalizing h with
  | nil =>
    cases hfree
    simp
  | cons p ps ih =>
    rw [freeAll_cons, bind_eq_some] at hfree
    obtain ⟨a, between, hfirst, hrest⟩ := hfree
    cases p with
    | none =>
      cases hfirst
      rw [List.reduceOption_cons_of_none]
      exact ih hrest
    | some p =>
      obtain ⟨-, -, rfl⟩ := free_some_iff.1 hfirst
      rw [ih hrest, mem_erase, List.reduceOption_cons_of_some, List.map_cons, List.mem_cons, not_or,
        and_comm (a := b ≠ p.block), and_assoc]

/-! ## What a part of a program has allocated -/

/-- The blocks that are allocated are those that the pointers are to, each to the start of its own,
and the others. -/
structure Owns (ps : List Pointer) (others : Finset ℕ) (h : Heap) : Prop where
  freeable : h.Freeable ps
  others : ∀ b, b ∈ others ↔ b ∈ h.live ∧ b ∉ ps.map Pointer.block

/-- Where nothing is owned, all live blocks are others'. -/
theorem owns_nil (h : Heap) : Owns [] h.live h :=
  ⟨⟨by simp, by simp⟩, by simp⟩

/-- A part that allocates owns what it is given. -/
theorem Owns.malloc {ps : List Pointer} {others : Finset ℕ} (howns : Owns ps others h) :
    ∃ p h', Heap.malloc.run h = some (p, h') ∧ Owns (p :: ps) others h' := by
  have hnew (q : Pointer) (hq : q ∈ ps) : q.block ≠ h.next :=
    (h.lt_next _ (howns.freeable.1 q hq).2).ne
  refine ⟨_, _, rfl, ⟨⟨?_, ?_⟩, ?_⟩⟩
  · rw [List.forall_mem_cons]
    refine ⟨⟨rfl, Finset.mem_insert_self _ _⟩, fun q hq => ?_⟩
    exact ⟨(howns.freeable.1 q hq).1, Finset.mem_insert_of_mem (howns.freeable.1 q hq).2⟩
  · rw [List.map_cons, List.nodup_cons]
    refine ⟨fun hmem => ?_, howns.freeable.2⟩
    obtain ⟨q, hq, heq⟩ := List.mem_map.1 hmem
    exact hnew q hq heq
  · intro b
    rw [howns.others, List.map_cons, List.mem_cons, Finset.mem_insert, not_or]
    constructor
    · rintro ⟨hlive, hps⟩
      exact ⟨.inr hlive, (h.lt_next b hlive).ne, hps⟩
    · rintro ⟨hlive | hlive, hne, hps⟩
      · exact absurd hlive hne
      · exact ⟨hlive, hps⟩

/-- The order of the pointers owned does not matter. -/
theorem Owns.perm {ps qs : List Pointer} {others : Finset ℕ} (howns : Owns ps others h)
    (hperm : ps.Perm qs) : Owns qs others h := by
  refine ⟨⟨fun p hp => howns.freeable.1 p (hperm.mem_iff.2 hp), ?_⟩, fun b => ?_⟩
  · exact (hperm.map _).nodup_iff.1 howns.freeable.2
  · rw [howns.others, (hperm.map _).mem_iff]

/-- A part that frees some of what it owns owns the rest. -/
theorem Owns.freeAll {ps : List (Option Pointer)} {qs : List Pointer} {others : Finset ℕ}
    (howns : Owns (ps.reduceOption ++ qs) others h) :
    ∃ h', (Heap.freeAll ps).run h = some ((), h') ∧ Owns qs others h' := by
  obtain ⟨hlive, hnodup⟩ := howns.freeable
  rw [List.map_append, List.nodup_append] at hnodup
  obtain ⟨h', hfree⟩ := freeAll_iff.2
    ⟨fun p hp => hlive p (List.mem_append_left _ hp), hnodup.1⟩
  have hmem := mem_of_freeAll hfree
  refine ⟨h', hfree, ⟨⟨fun q hq => ?_, hnodup.2.1⟩, fun b => ?_⟩⟩
  · obtain ⟨hoffset, hq'⟩ := hlive q (List.mem_append_right _ hq)
    refine ⟨hoffset, (hmem _).2 ⟨hq', fun hp => ?_⟩⟩
    exact hnodup.2.2 _ hp _ (List.mem_map_of_mem hq) rfl
  · rw [howns.others, hmem, List.map_append, List.mem_append, not_or, and_assoc]

/-- A part frees a pointer that it owns, if it is not null. -/
theorem Owns.free {p : Option Pointer} {qs : List Pointer} {others : Finset ℕ}
    (howns : Owns (p.toList ++ qs) others h) :
    ∃ h', (Heap.free p).run h = some ((), h') ∧ Owns qs others h' := by
  rw [← List.reduceOption_singleton] at howns
  obtain ⟨h', hfree, hrest⟩ := howns.freeAll
  refine ⟨h', ?_, hrest⟩
  rw [freeAll_cons, bind_eq_some] at hfree
  obtain ⟨a, between, hfree, hnil⟩ := hfree
  cases hnil
  exact hfree

/-- What is left where a part owns nothing any more are the others. -/
theorem Owns.live_eq {others : Finset ℕ} (howns : Owns [] others h) : h.live = others := by
  ext b
  rw [howns.others]
  simp

end Heap
