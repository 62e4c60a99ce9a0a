import Mathlib.Data.Fintype.Card
import Mathlib.Tactic.Common

/-!
# Sets of slots in a 32-bit mask

A mask holds a set of the slots `0` to `31`, slot `i` as the bit `1 << i`. `isSet`, `insert` and
`erase` are the idioms `mask & (1 << i)`, `mask |= 1 << i` and `mask &= ~(1 << i)`, and `slots` is
the set that the mask holds. The number of its one-bits is the cardinality of that set.
-/

namespace Mask

/-- The bit of a slot: `1 << i`. -/
def bit (i : Fin 32) : UInt32 := 1 <<< UInt32.ofNat i

/-- The test `mask & (1 << i)`. -/
def isSet (mask : UInt32) (i : Fin 32) : Bool := mask &&& bit i ≠ 0

/-- `mask |= 1 << i`. -/
def insert (mask : UInt32) (i : Fin 32) : UInt32 := mask ||| bit i

/-- `mask &= ~(1 << i)`. -/
def erase (mask : UInt32) (i : Fin 32) : UInt32 := mask &&& ~~~bit i

/-- The bit of a slot has the one-bit of that slot. -/
theorem getLsbD_bit (i j : Fin 32) : (bit i).toBitVec.getLsbD j = decide (j = i) := by
  have hbit : (bit i).toBitVec = BitVec.twoPow 32 i := by
    have hshift : ((UInt32.ofNat i).toBitVec % 32).toNat = i := by
      have h32 : (32 : BitVec 32).toNat = 32 := rfl
      rw [BitVec.toNat_umod, UInt32.toNat_toBitVec, UInt32.toNat_ofNat', h32]
      omega
    rw [bit, UInt32.toBitVec_shiftLeft, BitVec.twoPow_eq, BitVec.shiftLeft_eq', hshift]
    rfl
  rw [hbit, BitVec.getLsbD_twoPow]
  simp [Fin.ext_iff, eq_comm]

/-- The test reads one bit of the mask. -/
theorem isSet_eq (mask : UInt32) (i : Fin 32) : isSet mask i = mask.toBitVec.getLsbD i := by
  have hone : mask &&& bit i = 0 ↔ mask.toBitVec.getLsbD i = false := by
    rw [← UInt32.toBitVec_inj, UInt32.toBitVec_and]
    constructor
    · intro h
      have hi := congrArg (fun v => v.getLsbD i) h
      simp only [BitVec.getLsbD_and, getLsbD_bit, decide_true, Bool.and_true] at hi
      rw [hi, UInt32.toBitVec_zero, BitVec.getLsbD_zero]
    · intro h
      refine BitVec.eq_of_getLsbD_eq fun j hj => ?_
      have hbit := getLsbD_bit i ⟨j, hj⟩
      rw [BitVec.getLsbD_and, hbit]
      rcases eq_or_ne (⟨j, hj⟩ : Fin 32) i with rfl | hne
      · simpa using h
      · simp [hne]
  unfold isSet
  rw [Bool.eq_iff_iff, decide_eq_true_iff, ne_eq, hone, Bool.not_eq_false]

/-- After `insert`, its bit is set, and the others are as before. -/
theorem isSet_insert (mask : UInt32) (i j : Fin 32) :
    isSet (insert mask i) j = (isSet mask j || decide (j = i)) := by
  rw [isSet_eq, isSet_eq, insert, UInt32.toBitVec_or, BitVec.getLsbD_or, getLsbD_bit]

/-- After `erase`, its bit is clear, and the others are as before. -/
theorem isSet_erase (mask : UInt32) (i j : Fin 32) :
    isSet (erase mask i) j = (isSet mask j && !decide (j = i)) := by
  rw [isSet_eq, isSet_eq, erase, UInt32.toBitVec_and, UInt32.toBitVec_not, BitVec.getLsbD_and,
    BitVec.getLsbD_not, getLsbD_bit, decide_eq_true j.isLt, Bool.true_and]

/-- The set that a mask holds. -/
def slots (mask : UInt32) : Finset (Fin 32) := Finset.univ.filter fun i => isSet mask i = true

/-- The slots of a mask are its set bits. -/
@[simp] theorem mem_slots {mask : UInt32} {i : Fin 32} : i ∈ slots mask ↔ isSet mask i = true := by
  simp [slots]

/-- The mask zero has no slots. -/
theorem slots_zero : slots 0 = ∅ := by decide

/-- `insert` adds a slot. -/
theorem slots_insert (mask : UInt32) (i : Fin 32) :
    slots (insert mask i) = Insert.insert i (slots mask) := by
  ext j
  simp [isSet_insert, or_comm]

/-- `erase` removes a slot. -/
theorem slots_erase (mask : UInt32) (i : Fin 32) : slots (erase mask i) = (slots mask).erase i := by
  ext j
  simp [isSet_erase, and_comm]

/-- Only the zero mask holds no slot. -/
theorem eq_zero_of_slots {mask : UInt32} (h : slots mask = ∅) : mask = 0 := by
  rw [← UInt32.toBitVec_inj]
  refine BitVec.eq_of_getLsbD_eq fun i hi => ?_
  have hbit : isSet mask ⟨i, hi⟩ = false := by
    rw [Bool.eq_false_iff, ne_eq, ← mem_slots, h]
    exact Finset.notMem_empty _
  rw [isSet_eq] at hbit
  rw [hbit, UInt32.toBitVec_zero, BitVec.getLsbD_zero]

/-- A mask has at most 32 one-bits. -/
theorem card_slots_le (mask : UInt32) : (slots mask).card ≤ 32 := by
  have h := Finset.card_le_univ (slots mask)
  rwa [Fintype.card_fin] at h

/-- A mask with fewer than 32 one-bits has a free slot, and a mask with a free slot has fewer. -/
theorem card_slots_lt_iff {mask : UInt32} : (slots mask).card < 32 ↔ ∃ i, isSet mask i = false := by
  constructor
  · intro h
    by_contra! hall
    have huniv : slots mask = Finset.univ := by
      ext i
      simpa using hall i
    rw [huniv, Finset.card_univ, Fintype.card_fin] at h
    exact absurd h (Nat.lt_irrefl _)
  · rintro ⟨i, hi⟩
    have hcard := Finset.card_lt_univ_of_notMem (s := slots mask) (x := i) (by simp [hi])
    rwa [Fintype.card_fin] at hcard

end Mask
