import LibPolyCall.Library.Compaction
import LibPolyCall.Micro.Context

/-!
# Filtering commands

`polycall_micro_filter_commands` filters an array of commands in place: a read and a write cursor
run over the same storage. So this is the one function of `polycall_micro.c` for which the storage
behind `count` matters (`CommandStorage`). `filterCommands_filters` says that it filters the list of
commands, tests each of them once as it was, and changes nothing the second time.
-/

namespace LibPolyCall.Micro

open Compaction

/-- `PolycallCommandArray`, with the whole of its storage. -/
structure CommandStorage where
  commands : List.Vector PolycallCommand maxCommands
  count : ℕ
  capacity : UInt32
  /-- The commands that count are in the storage. -/
  count_le : count ≤ maxCommands

/-- The array as the other functions see it: `commands[0]` to `commands[count - 1]`. -/
def CommandStorage.array (storage : CommandStorage) : PolycallCommandArray :=
  ⟨storage.commands.toList.take storage.count, storage.capacity⟩

/-- What the loop of `polycall_micro_filter_commands` changes, with the commands that the predicate
has been called with. -/
structure FilterState where
  commands : List.Vector PolycallCommand maxCommands
  writeIdx : ℕ
  tested : List PolycallCommand

/-- `memcpy(&commands[i], &command, sizeof(PolycallCommand))`. -/
def store (commands : List.Vector PolycallCommand maxCommands) (i : ℕ) (command : PolycallCommand) :
    List.Vector PolycallCommand maxCommands :=
  ⟨commands.toList.set i command, by rw [List.length_set, List.Vector.toList_length]⟩

/-- The body of the loop. -/
def filterStep (predicate : PolycallCommand → Bool) (s : FilterState) (readIdx : ℕ) :
    FilterState :=
  match s.commands.toList[readIdx]? with
  -- Behind the storage; `count` does not lead there.
  | none => s
  | some command =>
    let s := { s with tested := s.tested ++ [command] }
    if predicate command then
      { s with
        commands :=
          if s.writeIdx ≠ readIdx then store s.commands s.writeIdx command else s.commands
        writeIdx := s.writeIdx + 1 }
    else s

/-- The first rounds of the loop. -/
def filterRounds (predicate : PolycallCommand → Bool) (storage : CommandStorage) (rounds : ℕ) :
    FilterState :=
  (List.range rounds).foldl (filterStep predicate) ⟨storage.commands, 0, []⟩

/-! ## The rounds -/

/-- The state behind some rounds on an array: the commands that were read have been filtered, and
tested as they were. -/
structure Filtering (predicate : PolycallCommand → Bool) (storage : CommandStorage) (rounds : ℕ)
    (s : FilterState) : Prop where
  compacted : Compacted predicate storage.commands.toList rounds s.commands.toList s.writeIdx
  tested : s.tested = storage.commands.toList.take rounds

section Rounds

variable {predicate : PolycallCommand → Bool} {storage : CommandStorage} {rounds : ℕ}
  {s : FilterState}

/-- A round skips its command or keeps it. -/
theorem Filtering.step (h : Filtering predicate storage rounds s) (hrounds : rounds < maxCommands) :
    Filtering predicate storage (rounds + 1) (filterStep predicate s rounds) := by
  have hlength : rounds < storage.commands.toList.length := by
    rwa [List.Vector.toList_length]
  have hread : storage.commands.toList[rounds]? = some storage.commands.toList[rounds] :=
    List.getElem?_eq_getElem hlength
  have hcommand := h.compacted.getElem?_read.trans hread
  have htested : s.tested ++ [storage.commands.toList[rounds]] =
      storage.commands.toList.take (rounds + 1) := by
    rw [h.tested, List.take_add_one, hread, Option.toList_some]
  unfold filterStep
  rw [hcommand]
  dsimp only
  cases hkeep : predicate storage.commands.toList[rounds] with
  | false => exact ⟨h.compacted.skip hread hkeep, htested⟩
  | true =>
    refine ⟨?_, htested⟩
    rw [if_pos rfl]
    dsimp only
    split_ifs with hne
    · exact h.compacted.keep hread hkeep
    · exact h.compacted.keep_self hread hkeep (not_not.1 hne)

/-- All rounds on the storage. -/
theorem filtering_filterRounds (predicate : PolycallCommand → Bool) (storage : CommandStorage)
    (hrounds : rounds ≤ maxCommands) :
    Filtering predicate storage rounds (filterRounds predicate storage rounds) := by
  induction rounds with
  | zero => exact ⟨.start _ _, rfl⟩
  | succ rounds ih =>
    rw [filterRounds, List.range_succ, List.foldl_append]
    exact (ih (Nat.le_of_succ_le hrounds)).step hrounds

/-- What is kept fits into the storage. -/
theorem writeIdx_le (predicate : PolycallCommand → Bool) (storage : CommandStorage) :
    (filterRounds predicate storage storage.count).writeIdx ≤ maxCommands :=
  (filtering_filterRounds predicate storage storage.count_le).compacted.write_le.trans
    storage.count_le

/-- Where every command that counts is kept, the rounds write nothing. -/
theorem filterRounds_of_all
    (h : ∀ command ∈ storage.array.commands, predicate command = true)
    (hrounds : rounds ≤ storage.count) :
    filterRounds predicate storage rounds =
      ⟨storage.commands, rounds, storage.commands.toList.take rounds⟩ := by
  induction rounds with
  | zero => rfl
  | succ rounds ih =>
    have hlength : rounds < storage.commands.toList.length := by
      rw [List.Vector.toList_length]
      exact hrounds.trans storage.count_le
    have hread : storage.commands.toList[rounds]? = some storage.commands.toList[rounds] :=
      List.getElem?_eq_getElem hlength
    have hkeep : predicate storage.commands.toList[rounds] = true :=
      h _ (List.mem_take_iff_getElem.2 ⟨rounds, by omega, rfl⟩)
    rw [filterRounds, List.range_succ, List.foldl_append]
    show filterStep predicate (filterRounds predicate storage rounds) rounds = _
    rw [ih (Nat.le_of_succ_le hrounds), filterStep]
    dsimp only
    rw [hread]
    dsimp only
    rw [if_pos hkeep, if_neg (not_not.2 rfl), List.take_add_one, hread, Option.toList_some]

end Rounds

/-! ## The array -/

/-- The array behind the loop. -/
def CommandStorage.filtered (storage : CommandStorage) (predicate : PolycallCommand → Bool) :
    CommandStorage where
  commands := (filterRounds predicate storage storage.count).commands
  count := (filterRounds predicate storage storage.count).writeIdx
  capacity := storage.capacity
  count_le := writeIdx_le predicate storage

/-- `polycall_micro_filter_commands`: what it returns, the array behind it, and the commands that
the predicate was called with. -/
def filterCommands (commands : Option CommandStorage)
    (predicate : Option (PolycallCommand → Bool)) :
    PolycallMicroStatus × Option CommandStorage × List PolycallCommand :=
  match commands, predicate with
  | some storage, some predicate =>
    (.success, some (storage.filtered predicate),
      (filterRounds predicate storage storage.count).tested)
  | commands, _ => (.errorCommand, commands, [])

section Array

variable {storage : CommandStorage} {predicate : PolycallCommand → Bool}

/-- The function returns success and the filtered storage, and has tested each command once. -/
theorem filterCommands_eq (storage : CommandStorage) (predicate : PolycallCommand → Bool) :
    filterCommands (some storage) (some predicate) =
      (.success, some (storage.filtered predicate), storage.array.commands) := by
  have htested := (filtering_filterRounds predicate storage storage.count_le).tested
  rw [filterCommands, htested]
  rfl

/-- The array holds the commands that the predicate keeps. -/
theorem commands_filtered (storage : CommandStorage) (predicate : PolycallCommand → Bool) :
    (storage.filtered predicate).array.commands = storage.array.commands.filter predicate :=
  (filtering_filterRounds predicate storage storage.count_le).compacted.front

/-- An array in which every command is kept stays as it is. -/
theorem filtered_of_all (h : ∀ command ∈ storage.array.commands, predicate command = true) :
    storage.filtered predicate = storage := by
  have hrounds := filterRounds_of_all h le_rfl
  unfold CommandStorage.filtered
  simp only [hrounds]

/-- `polycall_micro_filter_commands` filters in place: the array holds the commands that the
predicate keeps, in order, the predicate was called once with each command as it was, and the same
call changes nothing when it is made again. -/
theorem filterCommands_filters (storage : CommandStorage) (predicate : PolycallCommand → Bool) :
    ∃ filtered, filterCommands (some storage) (some predicate) =
        (.success, some filtered, storage.array.commands) ∧
      filtered.array.commands = storage.array.commands.filter predicate ∧
      filterCommands (some filtered) (some predicate) =
        (.success, some filtered, filtered.array.commands) := by
  refine ⟨_, filterCommands_eq storage predicate, commands_filtered storage predicate, ?_⟩
  have hall : ∀ command ∈ (storage.filtered predicate).array.commands,
      predicate command = true := by
    rw [commands_filtered]
    exact fun command hcommand => (List.mem_filter.1 hcommand).2
  rw [filterCommands_eq, filtered_of_all hall]

end Array

end LibPolyCall.Micro
