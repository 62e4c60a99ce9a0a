import Mathlib.Tactic.Common
import Mathlib.Tactic.Ring

/-!
# Numbers in memory

A number of fixed width lies in memory as its bytes, least significant first on a little-endian
host and most significant first on a big-endian one. `encode` and `decode` are the two directions
for a width in bytes, and `decode_encode` says that they are inverse up to the width.
-/

namespace Bytes

/-- The order in which a host lays out the bytes of a number. -/
inductive ByteOrder where
  | little
  | big
deriving DecidableEq, Repr

/-- The `w` low bytes of `n`, least significant first. -/
def toLittle : ℕ → ℕ → List UInt8
  | 0, _ => []
  | w + 1, n => UInt8.ofNat n :: toLittle w (n / 256)

/-- The number whose bytes these are, least significant first. -/
def ofLittle : List UInt8 → ℕ
  | [] => 0
  | b :: bs => b.toNat + 256 * ofLittle bs

/-- The `w` bytes of `n` in memory; what does not fit in them is dropped. -/
def encode : ByteOrder → ℕ → ℕ → List UInt8
  | .little, w, n => toLittle w n
  | .big, w, n => (toLittle w n).reverse

/-- The number that the bytes in memory hold. -/
def decode : ByteOrder → List UInt8 → ℕ
  | .little, bs => ofLittle bs
  | .big, bs => ofLittle bs.reverse

/-- An integer of `w` bytes takes `w` bytes. -/
@[simp] theorem length_toLittle (w n : ℕ) : (toLittle w n).length = w := by
  induction w generalizing n with
  | zero => rfl
  | succ w ih => simp [toLittle, ih]

/-- In either order it takes `w` bytes. -/
@[simp] theorem length_encode (o : ByteOrder) (w n : ℕ) : (encode o w n).length = w := by
  cases o <;> simp [encode]

/-- Reading back the bytes of a number gives what its width holds of it. -/
theorem ofLittle_toLittle (w n : ℕ) : ofLittle (toLittle w n) = n % 256 ^ w := by
  induction w generalizing n with
  | zero => simp [toLittle, ofLittle, Nat.mod_one]
  | succ w ih =>
    have hb : (UInt8.ofNat n).toNat = n % 256 := by simp
    rw [toLittle, ofLittle, ih, hb, pow_succ', Nat.mod_mul]

/-- Reading back a number in the order in which it was laid out gives what its width holds. -/
theorem decode_encode (o : ByteOrder) (w n : ℕ) : decode o (encode o w n) = n % 256 ^ w := by
  cases o with
  | little => exact ofLittle_toLittle w n
  | big => rw [encode, decode, List.reverse_reverse, ofLittle_toLittle]

/-- A number survives a width that it fits in. -/
theorem decode_encode_of_lt (o : ByteOrder) {w n : ℕ} (h : n < 256 ^ w) :
    decode o (encode o w n) = n := by
  rw [decode_encode, Nat.mod_eq_of_lt h]

/-- The number in the `w` bytes of `d` at an offset. -/
def readAt (o : ByteOrder) (d : List UInt8) (offset w : ℕ) : ℕ :=
  decode o ((d.drop offset).take w)

/-- What lies within the first bytes does not depend on what follows them. -/
theorem readAt_append_left (o : ByteOrder) {bs : List UInt8} {offset w : ℕ} (after : List UInt8)
    (h : offset + w ≤ bs.length) : readAt o (bs ++ after) offset w = readAt o bs offset w := by
  have hrest : w ≤ (bs.drop offset).length := by
    rw [List.length_drop]
    omega
  rw [readAt, readAt, List.drop_append_of_le_length (by omega), List.take_append_of_le_length hrest]

/-- What lies beyond the first bytes is read in what follows them. -/
theorem readAt_append_right (o : ByteOrder) {bs : List UInt8} {offset : ℕ} (w : ℕ)
    (after : List UInt8) (h : bs.length ≤ offset) :
    readAt o (bs ++ after) offset w = readAt o after (offset - bs.length) w := by
  rw [readAt, readAt, List.drop_append, List.drop_eq_nil_of_le h, List.nil_append]

/-- The number that comes first is read back, whatever follows it. -/
theorem readAt_encode (o : ByteOrder) (w n : ℕ) (after : List UInt8) :
    readAt o (encode o w n ++ after) 0 w = decode o (encode o w n) := by
  have hlen : (encode o w n).length = w := length_encode o w n
  rw [readAt, List.drop_zero, List.take_append_of_le_length hlen.ge, List.take_of_length_le hlen.le]

end Bytes
