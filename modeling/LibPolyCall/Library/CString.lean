import Mathlib.Data.Vector.Basic
import Mathlib.Tactic.Common

/-!
# C strings and character arrays

A C string is a sequence of bytes without a zero byte, which its terminator would be. A `char`
array of a fixed size holds one up to its first zero byte (`text`). `copy` is the idiom
`strncpy(dst, src, n - 1); dst[n - 1] = '\0'`, and `print` is `snprintf(dst, n, "%s", src)`: both
cut a string that is too long, the first fills the rest of the array with zeros, and the second
leaves it as it was.
-/

namespace CStrings

/-- A string as C passes it: the bytes before the terminating zero. -/
structure CString where
  /-- The bytes before the terminator. -/
  bytes : List UInt8
  /-- The terminator is the first zero byte. -/
  zero_notMem : 0 ∉ bytes
deriving DecidableEq

/-- The C string of a literal's characters. -/
def CString.ofChars (cs : List Char) : CString where
  bytes := (cs.map fun c => UInt8.ofNat c.toNat).filter (· ≠ 0)
  zero_notMem := by simp

/-- A `char[n]` array. -/
abbrev CharArray (n : ℕ) := List.Vector UInt8 n

namespace CharArray

variable {n : ℕ}

/-- The array that `calloc` gives. -/
def zeros (n : ℕ) : CharArray n := List.Vector.replicate n 0

/-- The string in the array, as `strcmp` reads it: the bytes up to the first zero byte. -/
def text (a : CharArray n) : List UInt8 := a.toList.takeWhile (· ≠ 0)

/-- `strncpy(dst, src, n - 1); dst[n - 1] = '\0'`. -/
def copy (n : ℕ) (s : CString) : CharArray n :=
  ⟨s.bytes.take (n - 1) ++ List.replicate (n - min (n - 1) s.bytes.length) 0, by
    simp only [List.length_append, List.length_take, List.length_replicate]
    omega⟩

/-- A copied string is read back up to the size of the array. -/
theorem text_copy (n : ℕ) (s : CString) : (copy n s).text = s.bytes.take (n - 1) := by
  have hnonzero : ∀ b ∈ s.bytes.take (n - 1), decide (b ≠ 0) = true := fun b hb =>
    decide_eq_true fun hzero => s.zero_notMem (hzero ▸ List.mem_of_mem_take hb)
  have hzeros : ∀ k, (List.replicate k (0 : UInt8)).takeWhile (· ≠ 0) = [] := fun k => by
    cases k <;> simp [List.replicate_succ]
  rw [text, copy, List.Vector.toList_mk, List.takeWhile_append_of_pos hnonzero, hzeros,
    List.append_nil]

/-- A copied string is terminated within the array. -/
theorem zero_mem_copy (hn : 0 < n) (s : CString) : 0 ∈ (copy n s).toList := by
  rw [copy, List.Vector.toList_mk, List.mem_append, List.mem_replicate]
  exact .inr ⟨by omega, rfl⟩

/-- `snprintf(dst, n, "%s", src)`, with the bytes after the terminator left as they were. -/
def print (a : CharArray n) (s : CString) : CharArray n :=
  ⟨((s.bytes.take (n - 1) ++ [0]) ++ a.toList.drop ((s.bytes.take (n - 1)).length + 1)).take n, by
    simp only [List.length_take, List.length_append, List.length_drop, List.Vector.toList_length,
      List.length_cons, List.length_nil]
    omega⟩

/-- A printed string is read back up to the size of the array. -/
theorem text_print (hn : 0 < n) (a : CharArray n) (s : CString) :
    (print a s).text = s.bytes.take (n - 1) := by
  have hnonzero : ∀ b ∈ s.bytes.take (n - 1), decide (b ≠ 0) = true := fun b hb =>
    decide_eq_true fun hzero => s.zero_notMem (hzero ▸ List.mem_of_mem_take hb)
  have hlength : (s.bytes.take (n - 1) ++ [0]).length ≤ n := by
    rw [List.length_append, List.length_take, List.length_singleton]
    omega
  rw [text, print, List.Vector.toList_mk, List.take_append, List.take_of_length_le hlength,
    List.append_assoc, List.takeWhile_append_of_pos hnonzero, List.singleton_append,
    List.takeWhile_cons_of_neg (by decide), List.append_nil]

end CharArray

end CStrings
