import Mathlib.Logic.Function.Basic
import Mathlib.Tactic.Common
import Mathlib.Tactic.Ring

/-!
# The rotate-and-add checksum

A 32-bit accumulator that is rotated left before each byte is added to it, modulo `2^32`. A step
is injective in the accumulator, because a rotation is, and in the byte. A difference in one byte
is therefore carried through all the later steps to the result (`rotateAdd_set_ne`).
-/

namespace Checksum

/-- One byte of the checksum: the accumulator rotated left by `r`, plus the byte. -/
def rotateAddStep (r : UInt32) (c : UInt32) (b : UInt8) : UInt32 :=
  ((c <<< r) ||| (c >>> (32 - r))) + b.toUInt32

/-- The checksum of the bytes, from a zero accumulator. -/
def rotateAdd (r : UInt32) (bs : List UInt8) : UInt32 := bs.foldl (rotateAddStep r) 0

/-- A rotation to the left by `n` bits, in numbers: the top `n` bits become the low ones. -/
theorem rotate_eq {w n : ℕ} (hn : n ≤ w) (c : ℕ) (hc : c < 2 ^ w) :
    (c <<< n) % 2 ^ w ||| c >>> (w - n) =
      (c % 2 ^ (w - n)) * 2 ^ n + c / 2 ^ (w - n) := by
  have hpow : 2 ^ w = 2 ^ (w - n) * 2 ^ n := by rw [← Nat.pow_add, Nat.sub_add_cancel hn]
  have htop : c / 2 ^ (w - n) < 2 ^ n := by
    rw [Nat.div_lt_iff_lt_mul (Nat.two_pow_pos _), Nat.mul_comm, ← hpow]
    exact hc
  have hshift : (c <<< n) % 2 ^ w = (c % 2 ^ (w - n)) <<< n := by
    rw [Nat.shiftLeft_eq, Nat.shiftLeft_eq, hpow, Nat.mul_mod_mul_right]
  rw [hshift, Nat.shiftRight_eq_div_pow, ← Nat.shiftLeft_add_eq_or_of_lt htop, Nat.shiftLeft_eq]

/-- A rotation of a 32-bit accumulator, in numbers. -/
theorem toNat_rotate {r : UInt32} (hr : 0 < r.toNat) (hr' : r.toNat < 32) (c : UInt32) :
    ((c <<< r) ||| (c >>> (32 - r))).toNat =
      (c.toNat % 2 ^ (32 - r.toNat)) * 2 ^ r.toNat + c.toNat / 2 ^ (32 - r.toNat) := by
  have hsub : (32 - r : UInt32).toNat = 32 - r.toNat := by
    rw [UInt32.toNat_sub_of_le]
    · rfl
    · rw [UInt32.le_iff_toNat_le]
      exact Nat.le_of_lt hr'
  have hmod : (32 - r.toNat) % 32 = 32 - r.toNat := Nat.mod_eq_of_lt (by omega)
  rw [UInt32.toNat_or, UInt32.toNat_shiftLeft, UInt32.toNat_shiftRight, hsub,
    Nat.mod_eq_of_lt hr', hmod]
  exact rotate_eq (Nat.le_of_lt hr') c.toNat c.toNat_lt

/-- A step is injective in the accumulator. -/
theorem rotateAddStep_left_injective {r : UInt32} (hr : 0 < r.toNat) (hr' : r.toNat < 32)
    (b : UInt8) : Function.Injective fun c => rotateAddStep r c b := by
  intro c d h
  have hrotate : ((c <<< r) ||| (c >>> (32 - r))) = ((d <<< r) ||| (d >>> (32 - r))) :=
    (UInt32.add_left_inj b.toUInt32).1 h
  have hnat := congrArg UInt32.toNat hrotate
  rw [toNat_rotate hr hr', toNat_rotate hr hr'] at hnat
  set p := 2 ^ (32 - r.toNat)
  set q := 2 ^ r.toNat
  have hpq : p * q = 2 ^ 32 := by rw [← Nat.pow_add, Nat.sub_add_cancel (Nat.le_of_lt hr')]
  -- Both parts of the sum are below `q` or multiples of it, so they are equal one by one.
  have hlow : ∀ e : UInt32, e.toNat / p < q := fun e => by
    rw [Nat.div_lt_iff_lt_mul (Nat.two_pow_pos _), Nat.mul_comm, hpq]
    exact e.toNat_lt
  have hdiv : c.toNat / p = d.toNat / p := by
    have hmod := congrArg (· % q) hnat
    simpa only [Nat.mul_add_mod_self_right, Nat.mod_eq_of_lt (hlow _)] using hmod
  have hrem : c.toNat % p = d.toNat % p := by
    rw [hdiv] at hnat
    exact Nat.eq_of_mul_eq_mul_right (Nat.two_pow_pos _) (Nat.add_right_cancel hnat)
  rw [← UInt32.toNat_inj, ← Nat.div_add_mod c.toNat p, ← Nat.div_add_mod d.toNat p, hdiv, hrem]

/-- A step is injective in the byte. -/
theorem rotateAddStep_right_injective (r c : UInt32) : Function.Injective (rotateAddStep r c) := by
  intro a b h
  have hbyte : a.toUInt32 = b.toUInt32 := (UInt32.add_right_inj _).1 h
  rw [← UInt8.toNat_inj, ← UInt8.toNat_toUInt32, hbyte, UInt8.toNat_toUInt32]

/-- A fold whose step is injective in the accumulator is injective in it. -/
theorem foldl_injective {α β : Type*} {f : α → β → α}
    (hf : ∀ b, Function.Injective fun a => f a b) :
    ∀ bs : List β, Function.Injective fun a => bs.foldl f a
  | [] => fun _ _ h => h
  | b :: bs => fun _ _ h => hf b (foldl_injective hf bs h)

/-- Where the step of a fold is injective in the accumulator and in the input, an input changed
changes the result. -/
theorem foldl_set_ne {α β : Type*} {f : α → β → α} (hf : ∀ b, Function.Injective fun a => f a b)
    (hf' : ∀ a, Function.Injective (f a)) (a : α) {bs : List β} {k : ℕ} (hk : k < bs.length)
    {b : β} (hb : b ≠ bs[k]) : (bs.set k b).foldl f a ≠ bs.foldl f a := by
  intro h
  rw [List.set_eq_take_append_cons_drop, if_pos hk] at h
  have hsplit : bs.take k ++ bs[k] :: bs.drop (k + 1) = bs := by
    rw [List.getElem_cons_drop, List.take_append_drop]
  have hfolds : (bs.take k ++ b :: bs.drop (k + 1)).foldl f a =
      (bs.take k ++ bs[k] :: bs.drop (k + 1)).foldl f a := by
    rw [hsplit]
    exact h
  rw [List.foldl_append, List.foldl_append, List.foldl_cons, List.foldl_cons] at hfolds
  exact hb (hf' _ (foldl_injective hf _ hfolds))

/-- A byte changed changes the checksum. -/
theorem rotateAdd_set_ne {r : UInt32} (hr : 0 < r.toNat) (hr' : r.toNat < 32) {bs : List UInt8}
    {k : ℕ} (hk : k < bs.length) {b : UInt8} (hb : b ≠ bs[k]) :
    rotateAdd r (bs.set k b) ≠ rotateAdd r bs :=
  foldl_set_ne (rotateAddStep_left_injective hr hr') (rotateAddStep_right_injective r) 0 hk hb

/-- Two lists of one length that differ at exactly one place. -/
structure OneChanged {α : Type*} (p q : List α) : Prop where
  length_eq : q.length = p.length
  one : ∃ k : ℕ, p[k]? ≠ q[k]? ∧ ∀ i, i ≠ k → p[i]? = q[i]?

/-- The list with one place changed is the other list with this place set. -/
theorem OneChanged.exists_set {α : Type*} {p q : List α} (h : OneChanged p q) :
    ∃ k, ∃ hk : k < p.length, ∃ b, b ≠ p[k] ∧ q = p.set k b := by
  obtain ⟨hlength, k, hne, hsame⟩ := h
  have hk : k < p.length := by
    -- Beyond the end there is nothing to differ in.
    by_contra hbeyond
    rw [not_lt] at hbeyond
    exact hne ((List.getElem?_eq_none hbeyond).trans
      (List.getElem?_eq_none (hlength ▸ hbeyond)).symm)
  have hk' : k < q.length := hlength ▸ hk
  refine ⟨k, hk, q[k], fun heq => hne ?_, List.ext_getElem? fun i => ?_⟩
  · rw [List.getElem?_eq_getElem hk, List.getElem?_eq_getElem hk', heq]
  · by_cases hi : i = k
    · subst hi
      rw [List.getElem?_set_self hk, List.getElem?_eq_getElem hk']
    · rw [List.getElem?_set_ne (Ne.symm hi), hsame i hi]

/-- Bytes that differ at exactly one place have different checksums. -/
theorem rotateAdd_ne {r : UInt32} (hr : 0 < r.toNat) (hr' : r.toNat < 32) {p q : List UInt8}
    (h : OneChanged p q) : rotateAdd r p ≠ rotateAdd r q := by
  obtain ⟨k, hk, b, hb, rfl⟩ := h.exists_set
  exact (rotateAdd_set_ne hr hr' hk hb).symm

end Checksum
