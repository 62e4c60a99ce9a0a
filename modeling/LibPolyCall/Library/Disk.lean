import Mathlib.Logic.Function.Basic
import Mathlib.Tactic.Common

/-!
# Files on a disk

A disk has the files by their paths, each with its bytes and whether it may be read and written. A
program changes it by the writes of the standard library: a file is opened for writing, which
creates it or cuts it down to nothing, bytes are appended to it, and a file is removed. What a
program does to a disk is a list of writes, and `run` gives the disk after them.

`blocks` is how a file is read with a buffer: pieces of the size of the buffer, and the rest.
-/

namespace Disks

variable {π : Type*} [DecidableEq π]

/-- A file. -/
structure File where
  bytes : List UInt8
  readable : Bool
  writable : Bool
deriving DecidableEq

/-- The files by their paths. -/
abbrev Disk (π : Type*) := π → Option File

/-- A change of the file at a path. -/
inductive Write (π : Type*) where
  | create (path : π)
  | append (path : π) (bytes : List UInt8)
  | remove (path : π)
deriving DecidableEq

/-- The path of the file that is changed. -/
def Write.path : Write π → π
  | create path => path
  | append path _ => path
  | remove path => path

/-- A file that has just been opened for writing; one that is created may be read and written. -/
def emptied (file : Option File) : File :=
  match file with
  | some file => { file with bytes := [] }
  | none => ⟨[], true, true⟩

/-- The disk after a change. -/
def Write.apply (disk : Disk π) : Write π → Disk π
  | create path => Function.update disk path (some (emptied (disk path)))
  | append path bytes =>
    Function.update disk path
      ((disk path).map fun file => { file with bytes := file.bytes ++ bytes })
  | remove path => Function.update disk path none

/-- The disk after some changes. -/
def run (disk : Disk π) (writes : List (Write π)) : Disk π := writes.foldl Write.apply disk

/-- No writes leave the disk as it is. -/
@[simp] theorem run_nil (disk : Disk π) : run disk [] = disk := rfl

/-- The first write of a run comes first. -/
@[simp] theorem run_cons (disk : Disk π) (w : Write π) (ws : List (Write π)) :
    run disk (w :: ws) = run (w.apply disk) ws := rfl

/-- A run goes on from where another one ended. -/
theorem run_append (disk : Disk π) (ws vs : List (Write π)) :
    run disk (ws ++ vs) = run (run disk ws) vs :=
  List.foldl_append

/-- A change leaves the other files as they were. -/
theorem apply_of_ne {disk : Disk π} {w : Write π} {path : π} (h : path ≠ w.path) :
    w.apply disk path = disk path := by
  cases w <;> exact Function.update_of_ne h _ _

/-- Changes of other files leave a file as it was. -/
theorem run_of_ne : ∀ {ws : List (Write π)} {disk : Disk π} {path : π},
    (∀ w ∈ ws, path ≠ w.path) → run disk ws path = disk path
  | [], _, _, _ => rfl
  | w :: ws, disk, path, h => by
    rw [List.forall_mem_cons] at h
    rw [run_cons, run_of_ne h.2, apply_of_ne h.1]

/-- Changes of one file that end with its removal leave the disk without it. -/
theorem run_remove {ws : List (Write π)} {disk : Disk π} {path : π}
    (h : ∀ w ∈ ws, w.path = path) :
    run disk (ws ++ [.remove path]) = Function.update disk path none := by
  rw [run_append]
  funext other
  rcases eq_or_ne other path with rfl | hne
  · show Function.update (run disk ws) other none other = _
    rw [Function.update_self, Function.update_self]
  · show Function.update (run disk ws) path none other = _
    rw [Function.update_of_ne hne, Function.update_of_ne hne]
    refine run_of_ne fun w hw => ?_
    rw [h w hw]
    exact hne

/-- Bytes appended one piece after the other are all there. -/
theorem run_appends {path : π} : ∀ (pieces : List (List UInt8)) {disk : Disk π} {file : File},
    disk path = some file →
      run disk (pieces.map (.append path)) path =
        some { file with bytes := file.bytes ++ pieces.flatten }
  | [], _, file, h => by
    rw [List.map_nil, run_nil, h, List.flatten_nil, List.append_nil]
  | piece :: pieces, disk, file, h => by
    have hfirst : (Write.append path piece).apply disk path =
        some { file with bytes := file.bytes ++ piece } := by
      rw [Write.apply, Function.update_self, h, Option.map_some]
    rw [List.map_cons, run_cons, run_appends pieces hfirst, List.flatten_cons, List.append_assoc]

/-- What is read of some bytes with a buffer of this size, where `cur` is in the buffer already. -/
def blocks (size : ℕ) : List UInt8 → List UInt8 → List (List UInt8)
  | cur, [] => if cur = [] then [] else [cur]
  | cur, b :: bs =>
    if (cur ++ [b]).length = size then (cur ++ [b]) :: blocks size [] bs
    else blocks size (cur ++ [b]) bs

/-- Nothing is lost in the buffer. -/
theorem flatten_blocks (size : ℕ) (cur bs : List UInt8) :
    (blocks size cur bs).flatten = cur ++ bs := by
  induction bs generalizing cur with
  | nil =>
    unfold blocks
    split_ifs with hcur <;> simp [hcur]
  | cons b bs ih =>
    unfold blocks
    split_ifs <;> simp [ih]

end Disks
