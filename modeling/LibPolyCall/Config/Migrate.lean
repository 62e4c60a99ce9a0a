import LibPolyCall.Config.Loader
import LibPolyCall.Library.Disk

/-!
# Migration

`migrate_config` of `polycall_config.c` copies a legacy file to the file of a language, after it
has looked whether the destination exists and the source is valid. Every call that opens, reads,
writes or closes a file may fail, on its own account (`Faults`) or for want of a permission. What
the function does to the disk is a list of writes.

It undoes what it has done when something fails, and what it leaves behind is a valid copy
(`migrate_iff`). But that the destination does not exist it concludes from a failing `fopen`, and
then creates it with another one: a file that may be written and not read is overwritten.
-/

namespace LibPolyCall.Config

open Scan Lines
open Disks (Disk Write run)

/-- How it goes when a file is opened and read: whether `fopen` finds what it needs, and the number
of bytes after which a read error comes, if one does. -/
structure Reading where
  opens : Bool
  failsAfter : Option ℕ

/-- A file is opened and read without a failure. -/
def Reading.clean : Reading := ⟨true, none⟩

/-- What can be read of a file of the disk. -/
def Reading.file (reading : Reading) (file : Disks.File) : Option File :=
  if reading.opens ∧ file.readable then
    match reading.failsAfter with
    | none => some ⟨file.bytes, false⟩
    | some n => some ⟨file.bytes.take n, true⟩
  else none

/-- The disk as the reader of a file sees it. -/
def Reading.sees (reading : Reading) (disk : Disk Text) : FileSystem := fun path =>
  (disk path).bind reading.file

/-- Where the calls of a migration fail on their own account. -/
structure Faults where
  /-- `file_exists` on the destination. -/
  check : Reading
  /-- `parse_config_file` on the source. -/
  parse : Reading
  /-- The source when it is copied. -/
  input : Reading
  /-- Whether `fopen` finds what it needs to open the destination. -/
  creates : Bool
  /-- The number of bytes that get through in each call of `fwrite`, if not all do. -/
  writes : ℕ → Option ℕ
  /-- Whether `fclose` fails on the destination. -/
  closeFails : Bool

/-- `fopen(destination, "wb")` succeeds. -/
def canCreate (faults : Faults) (disk : Disk Text) (destination : Text) : Bool :=
  faults.creates && (disk destination).all fun file => file.writable

/-- The loop of `migrate_config` over the blocks that `fread` gives: what it writes, and whether
all of it gets through. -/
def copyBlocks (faults : Faults) (destination : Text) : ℕ → List Text → List (Write Text) × Bool
  | _, [] => ([], true)
  | i, block :: blocks =>
    let through := (faults.writes i).elim block block.take
    if through.length ≠ block.length then ([.append destination through], false)
    else
      let others := copyBlocks faults destination (i + 1) blocks
      (.append destination through :: others.1, others.2)

/-- What a migration does: what it writes, and what it prints and returns. -/
structure Migration where
  writes : List (Write Text)
  report : Report

/-- A migration that has done nothing, and fails with these complaints. -/
def refuse (complaints : List Text) : Migration := ⟨[], ⟨1, [], complaints⟩⟩

/-- What the copy of a migration reads of its source. It has been opened before, and is read when
the destination has been cut down. -/
def inputOf (faults : Faults) (disk : Disk Text) (source destination : Text) : File :=
  (faults.input.sees ((Write.create destination).apply disk) source).getD ⟨[], false⟩

/-- The part of `migrate_config` behind `fopen(destination, "wb")`. -/
def copyInto (faults : Faults) (disk : Disk Text) (source destination : Text)
    (warnings : List Text) : Migration :=
  let created : Write Text := .create destination
  let input := inputOf faults disk source destination
  let copied := copyBlocks faults destination 0 (Disks.blocks 4096 [] input.bytes)
  if !copied.2 then
    ⟨created :: copied.1 ++ [.remove destination],
      ⟨1, [], warnings ++
        [lit "Failed to write migration destination: " ++ destination ++ lit "\n"]⟩⟩
  else if input.readFails || faults.closeFails then
    ⟨created :: copied.1 ++ [.remove destination],
      ⟨1, [], warnings ++
        [lit "Failed to migrate configuration to: " ++ destination ++ lit "\n"]⟩⟩
  else
    ⟨created :: copied.1,
      ⟨0, [lit "Migrated " ++ source ++ lit " to " ++ destination ++ lit "\n"], warnings⟩⟩

/-- `migrate_config`. -/
def migrateConfig (faults : Faults) (disk : Disk Text) (source destination : Text) : Migration :=
  if fileExists (faults.check.sees disk) destination then
    refuse [lit "Refusing to overwrite existing file: " ++ destination ++ lit "\n"]
  else
    let badName := refuse [lit "Migration destination must be Polycallrc.<language>\n"]
    match inferLayer destination with
    | (.language, some language) =>
      if ¬validLanguage language then badName
      else
        let parsed := parseConfigFile (faults.parse.sees disk) .empty source .language
        let complaints := validateRequired parsed.config false (some language)
        if ¬parsed.ok then refuse parsed.stderr
        else if complaints ≠ [] then refuse (parsed.stderr ++ complaints)
        else if (faults.input.sees disk source).isNone then
          refuse (parsed.stderr ++
            [lit "Unable to open migration source: " ++ source ++ lit "\n"])
        else if !canCreate faults disk destination then
          refuse (parsed.stderr ++
            [lit "Unable to create migration destination: " ++ destination ++ lit "\n"])
        else copyInto faults disk source destination parsed.stderr
    | _ => badName

/-- Nothing keeps a migration from opening its destination: the check does not see the destination,
its name is that of a language's file, the source is valid for this language and can be opened, and
the destination can be created. -/
structure Copies (faults : Faults) (disk : Disk Text) (source destination : Text) : Prop where
  unseen : fileExists (faults.check.sees disk) destination = false
  valid : ∃ language, inferLayer destination = (.language, some language) ∧
    validLanguage language = true ∧
    (parseConfigFile (faults.parse.sees disk) .empty source .language).ok = true ∧
    validateRequired (parseConfigFile (faults.parse.sees disk) .empty source .language).config
      false (some language) = []
  opens : (faults.input.sees disk source).isSome = true
  creates : canCreate faults disk destination = true

variable {faults : Faults} {disk : Disk Text} {source destination : Text}

/-! ## The two ends of a migration -/

/-- What a migration that copies has found of its source, for the language of the destination. -/
theorem Copies.valid_language (h : Copies faults disk source destination) {language : Text}
    (hlayer : inferLayer destination = (.language, some language)) :
    validLanguage language = true ∧
      (parseConfigFile (faults.parse.sees disk) .empty source .language).ok = true ∧
      validateRequired (parseConfigFile (faults.parse.sees disk) .empty source .language).config
        false (some language) = [] := by
  obtain ⟨-, ⟨l, hl, hvalid⟩, -, -⟩ := h
  obtain rfl : language = l := by
    rw [hlayer, Prod.mk.injEq, Option.some.injEq] at hl
    exact hl.2
  exact hvalid

/-- A migration copies, or refuses with the disk as it is. -/
theorem migrateConfig_cases (faults : Faults) (disk : Disk Text) (source destination : Text) :
    (Copies faults disk source destination ∧ ∃ warnings,
        migrateConfig faults disk source destination =
          copyInto faults disk source destination warnings) ∨
      (¬ Copies faults disk source destination ∧ ∃ complaints,
        migrateConfig faults disk source destination = refuse complaints) := by
  unfold migrateConfig
  dsimp only
  by_cases hseen : fileExists (faults.check.sees disk) destination = true
  · rw [if_pos hseen]
    exact .inr ⟨fun h => by simp [h.unseen] at hseen, _, rfl⟩
  rw [if_neg hseen]
  rcases hlayer : inferLayer destination with ⟨layer, language⟩
  -- The checks come in the order of the source. Only the name of a language's file gets through.
  have hother : (∀ l, (layer, language) ≠ (.language, some l)) →
      ¬ Copies faults disk source destination := by
    rintro hne ⟨-, ⟨l, hl, -⟩, -, -⟩
    exact hne l (hlayer.symm.trans hl)
  rcases layer with _ | _ | _
  · exact .inr ⟨hother (by simp), _, rfl⟩
  · exact .inr ⟨hother (by simp), _, rfl⟩
  rcases language with _ | language
  · exact .inr ⟨hother (by simp), _, rfl⟩
  dsimp only
  by_cases hvalid : validLanguage language = true
  swap
  · rw [if_pos hvalid]
    exact .inr ⟨fun h => hvalid (h.valid_language hlayer).1, _, rfl⟩
  rw [if_neg (not_not.2 hvalid)]
  by_cases hok : (parseConfigFile (faults.parse.sees disk) .empty source .language).ok = true
  swap
  · rw [if_pos hok]
    exact .inr ⟨fun h => hok (h.valid_language hlayer).2.1, _, rfl⟩
  rw [if_neg (not_not.2 hok)]
  by_cases hrequired : validateRequired
      (parseConfigFile (faults.parse.sees disk) .empty source .language).config
      false (some language) = []
  swap
  · rw [if_pos hrequired]
    exact .inr ⟨fun h => hrequired (h.valid_language hlayer).2.2, _, rfl⟩
  rw [if_neg (not_not.2 hrequired)]
  by_cases hopens : (faults.input.sees disk source).isNone = true
  · rw [if_pos hopens]
    refine .inr ⟨fun h => ?_, _, rfl⟩
    rw [Option.isNone_iff_eq_none] at hopens
    simpa [hopens] using h.opens
  rw [if_neg hopens]
  by_cases hcreates : canCreate faults disk destination = true
  · rw [if_neg (by simp [hcreates])]
    exact .inl ⟨⟨by simpa using hseen, ⟨language, hlayer, hvalid, hok, hrequired⟩,
      by simpa [Option.isSome_iff_ne_none] using hopens, hcreates⟩, _, rfl⟩
  · rw [if_pos (by simp [hcreates])]
    exact .inr ⟨fun h => hcreates h.creates, _, rfl⟩

/-- A copy writes to its destination only. -/
theorem path_of_mem_copyBlocks {faults : Faults} {destination : Text} {i : ℕ}
    {blocks : List Text} {w : Write Text} (h : w ∈ (copyBlocks faults destination i blocks).1) :
    w.path = destination := by
  induction blocks generalizing i with
  | nil => cases h
  | cons block blocks ih =>
    unfold copyBlocks at h
    dsimp only at h
    split_ifs at h with hshort
    · rw [List.mem_singleton] at h
      rw [h]
      rfl
    · rcases List.mem_cons.1 h with rfl | hothers
      · rfl
      · exact ih hothers

/-- A copy that gets through has written the blocks one after the other. -/
theorem copyBlocks_of_ok {faults : Faults} {destination : Text} {i : ℕ} {blocks : List Text}
    (h : (copyBlocks faults destination i blocks).2 = true) :
    (copyBlocks faults destination i blocks).1 = blocks.map (.append destination) := by
  induction blocks generalizing i with
  | nil => rfl
  | cons block blocks ih =>
    unfold copyBlocks at h ⊢
    dsimp only at h ⊢
    split_ifs at h ⊢ with hshort
    have hthrough : (faults.writes i).elim block block.take = block := by
      rw [not_not] at hshort
      cases hwrites : faults.writes i with
      | none => rfl
      | some n =>
        rw [hwrites] at hshort
        exact (List.take_prefix n block).eq_of_length hshort
    rw [List.map_cons, ← ih h, hthrough]

/-- A copy fails, and removes its destination, or it has written all that there was. -/
theorem copyInto_cases (faults : Faults) (disk : Disk Text) (source destination : Text)
    (warnings : List Text) :
    ((copyInto faults disk source destination warnings).report.code = 1 ∧
        ∃ ws, (copyInto faults disk source destination warnings).writes =
            .create destination :: ws ++ [.remove destination] ∧
          ∀ w ∈ ws, w.path = destination) ∨
      ((copyInto faults disk source destination warnings).report.code = 0 ∧
        (inputOf faults disk source destination).readFails = false ∧
        (copyInto faults disk source destination warnings).writes =
          .create destination ::
            (Disks.blocks 4096 [] (inputOf faults disk source destination).bytes).map
              (.append destination)) := by
  unfold copyInto
  dsimp only
  by_cases hcopied : (copyBlocks faults destination 0
      (Disks.blocks 4096 [] (inputOf faults disk source destination).bytes)).2 = true
  · rw [if_neg (by simp [hcopied])]
    by_cases hend : (inputOf faults disk source destination).readFails ∨ faults.closeFails
    · rw [if_pos (by simpa using hend)]
      exact .inl ⟨rfl, _, rfl, fun w hw => path_of_mem_copyBlocks hw⟩
    · rw [if_neg (by simpa using hend), copyBlocks_of_ok hcopied]
      exact .inr ⟨rfl, by simpa using (not_or.1 hend).1, rfl⟩
  · rw [if_pos (by simpa using hcopied)]
    exact .inl ⟨rfl, _, rfl, fun w hw => path_of_mem_copyBlocks hw⟩

/-- The first write of a copy opens the destination. -/
theorem exists_writes_copyInto (faults : Faults) (disk : Disk Text) (source destination : Text)
    (warnings : List Text) :
    ∃ ws, (copyInto faults disk source destination warnings).writes =
      .create destination :: ws := by
  rcases copyInto_cases faults disk source destination warnings with
    ⟨-, ws, hwrites, -⟩ | ⟨-, -, hwrites⟩
  · exact ⟨_, hwrites⟩
  · exact ⟨_, hwrites⟩

/-- A copy that fails leaves the disk without its destination. -/
theorem run_copyInto_of_failed {warnings : List Text}
    (h : (copyInto faults disk source destination warnings).report.code ≠ 0) :
    run disk (copyInto faults disk source destination warnings).writes =
      Function.update disk destination none := by
  rcases copyInto_cases faults disk source destination warnings with
    ⟨-, ws, hwrites, hpaths⟩ | ⟨hcode, -, -⟩
  · rw [hwrites]
    refine Disks.run_remove fun w hw => ?_
    rcases List.mem_cons.1 hw with rfl | hw
    · rfl
    · exact hpaths w hw
  · exact absurd hcode h

/-- A copy that succeeds has read its source to the end, and leaves what it has read. -/
theorem run_copyInto_of_done {warnings : List Text}
    (h : (copyInto faults disk source destination warnings).report.code = 0) :
    (inputOf faults disk source destination).readFails = false ∧
      run disk (copyInto faults disk source destination warnings).writes destination =
        some { Disks.emptied (disk destination) with
          bytes := (inputOf faults disk source destination).bytes } := by
  rcases copyInto_cases faults disk source destination warnings with
    ⟨hcode, -⟩ | ⟨-, hreads, hwrites⟩
  · rw [hcode] at h
    cases h
  refine ⟨hreads, ?_⟩
  -- The destination is empty when the first block is appended.
  have hcreated : (Write.create destination).apply disk destination =
      some (Disks.emptied (disk destination)) := Function.update_self ..
  have hempty : (Disks.emptied (disk destination)).bytes = [] := by
    cases disk destination <;> rfl
  set bytes := (inputOf faults disk source destination).bytes
  calc run disk (copyInto faults disk source destination warnings).writes destination
    _ = some { Disks.emptied (disk destination) with
          bytes := (Disks.emptied (disk destination)).bytes ++
            (Disks.blocks 4096 [] bytes).flatten } := by
      rw [hwrites, Disks.run_cons, Disks.run_appends _ hcreated]
    _ = some { Disks.emptied (disk destination) with bytes := bytes } := by
      rw [Disks.flatten_blocks, hempty, List.nil_append, List.nil_append]

/-! ## All or nothing -/

/-- A migration is all or nothing, and never overwrites. -/
structure AllOrNothing (faults : Faults) (disk : Disk Text) (source destination : Text) :
    Prop where
  /-- A file at the destination stays as it is, also while the migration goes on. -/
  kept : disk destination ≠ none → ∀ n,
    run disk ((migrateConfig faults disk source destination).writes.take n) destination =
      disk destination
  /-- A migration that fails leaves the disk as it was. -/
  undone : (migrateConfig faults disk source destination).report.code ≠ 0 →
    run disk (migrateConfig faults disk source destination).writes = disk
  /-- A migration that succeeds leaves a copy of the source, which is valid for its language. -/
  done : (migrateConfig faults disk source destination).report.code = 0 →
    ∃ original copy, disk source = some original ∧
      run disk (migrateConfig faults disk source destination).writes destination = some copy ∧
      copy.bytes = original.bytes ∧
      (parseConfigFile (Reading.clean.sees
        (run disk (migrateConfig faults disk source destination).writes))
        .empty destination .language).ok = true ∧
      validateRequired (parseConfigFile (Reading.clean.sees
        (run disk (migrateConfig faults disk source destination).writes))
        .empty destination .language).config false (inferLayer destination).2 = []

/-- A file that was read without an error was read as a whole. -/
theorem Reading.file_eq_some {reading : Reading} {file : Disks.File} {seen : File}
    (h : reading.file file = some seen) (hreads : seen.readFails = false) :
    seen = ⟨file.bytes, false⟩ := by
  unfold Reading.file at h
  split_ifs at h
  cases hfails : reading.failsAfter with
  | none =>
    rw [hfails] at h
    exact (Option.some.inj h).symm
  | some n =>
    rw [hfails] at h
    rw [← Option.some.inj h] at hreads
    cases hreads

/-- Two files with the same bytes are parsed alike. -/
theorem parseConfigFile_congr {fs fs' : FileSystem} {path path' : Text} {file : File}
    {layer : ConfigLayer} (hfile : fs path = some file) (hfile' : fs' path' = some file)
    (hok : (parseConfigFile fs .empty path layer).ok = true) :
    (parseConfigFile fs' .empty path' layer).ok = true ∧
      (parseConfigFile fs' .empty path' layer).config =
        (parseConfigFile fs .empty path layer).config := by
  have hok' : (parseConfigFile fs' .empty path' layer).ok = true :=
    parseConfigFile_ok_iff.2 ⟨file, hfile', accepted_of_ok hfile hok⟩
  exact ⟨hok', (parseConfigFile_config hfile' hok').trans (parseConfigFile_config hfile hok).symm⟩

/-- Nothing is set by an empty file, and a language's file has to set a workspace. -/
theorem complaints_of_empty_file {fs : FileSystem} {path : Text} {layer : ConfigLayer}
    (hfile : fs path = some ⟨[], false⟩) (hok : (parseConfigFile fs .empty path layer).ok = true)
    (language : Text) :
    validateRequired (parseConfigFile fs .empty path layer).config false (some language) ≠ [] := by
  intro hrequired
  rw [parseConfigFile_config hfile hok, validateRequired_eq_nil_iff] at hrequired
  exact hrequired.workspace language rfl rfl

/-- Where there was no file, a migration that copies has undone or done it all. -/
theorem allOrNothing_of_copies (hcopies : Copies faults disk source destination)
    (hnone : disk destination = none) : AllOrNothing faults disk source destination := by
  obtain ⟨-, ⟨language, hlayer, -, hok, hrequired⟩, hopens, -⟩ := id hcopies
  rcases migrateConfig_cases faults disk source destination with
    ⟨-, warnings, hmigrate⟩ | ⟨hnot, -⟩
  swap
  · exact absurd hcopies hnot
  refine ⟨fun h => absurd hnone h, fun hfailed => ?_, fun hdone => ?_⟩
  · rw [hmigrate] at hfailed ⊢
    rw [run_copyInto_of_failed hfailed, ← hnone, Function.update_eq_self]
  rw [hmigrate] at hdone ⊢
  obtain ⟨hreads, hfinal⟩ := run_copyInto_of_done hdone
  -- The source was there when it was parsed, so it is another file than the destination.
  obtain ⟨seen, hseen, hwhole, -⟩ := parseConfigFile_ok_iff.1 hok
  obtain ⟨original, horiginal, hfile⟩ := Option.bind_eq_some_iff.1 hseen
  have hne : source ≠ destination := by
    rintro rfl
    rw [hnone] at horiginal
    cases horiginal
  have hinput : (inputOf faults disk source destination).bytes = original.bytes := by
    obtain ⟨read, hread⟩ := Option.isSome_iff_exists.1 hopens
    have hsource : inputOf faults disk source destination = read := by
      have hkept : (Write.create destination).apply disk source = disk source :=
        Disks.apply_of_ne hne
      rw [inputOf, Reading.sees, hkept]
      exact congrArg (Option.getD · _) hread
    rw [hsource] at hreads ⊢
    rw [Reading.sees, horiginal, Option.bind_some] at hread
    rw [Reading.file_eq_some hread hreads]
  rw [hnone, hinput] at hfinal
  rw [Reading.file_eq_some hfile hwhole] at hseen
  have hclean : Reading.clean.sees
      (run disk (copyInto faults disk source destination warnings).writes) destination =
        some ⟨original.bytes, false⟩ := by
    rw [Reading.sees, hfinal]
    rfl
  obtain ⟨hcopy, hconfig⟩ := parseConfigFile_congr hseen hclean hok
  refine ⟨original, _, horiginal, hfinal, rfl, hcopy, ?_⟩
  rw [hconfig, hlayer]
  exact hrequired

/-- A file at the destination is lost when a migration copies. -/
theorem not_allOrNothing_of_copies (hcopies : Copies faults disk source destination)
    {file : Disks.File} (hfile : disk destination = some file) :
    ¬ AllOrNothing faults disk source destination := by
  intro h
  obtain ⟨-, ⟨language, hlayer, -⟩, -, -⟩ := id hcopies
  rcases migrateConfig_cases faults disk source destination with
    ⟨-, warnings, hmigrate⟩ | ⟨hnot, -⟩
  swap
  · exact absurd hcopies hnot
  have hkept := h.kept (by simp [hfile])
  by_cases hcode : (migrateConfig faults disk source destination).report.code = 0
  swap
  · -- The copy fails and removes the file.
    have hundone := h.undone hcode
    rw [hmigrate] at hcode hundone
    rw [run_copyInto_of_failed hcode] at hundone
    have hgone := congrFun hundone destination
    rw [Function.update_self, hfile] at hgone
    cases hgone
  -- The first write has cut the file down, so it was empty, and so was the source.
  have hcut := hkept 1
  have hwhole := hkept (migrateConfig faults disk source destination).writes.length
  rw [List.take_length] at hwhole
  obtain ⟨original, copy, -, hcopy, -, hok, hrequired⟩ := h.done hcode
  have hempty : file.bytes = [] := by
    obtain ⟨ws, hws⟩ := exists_writes_copyInto faults disk source destination warnings
    rw [hmigrate, hws, List.take_succ_cons, List.take_zero, Disks.run_cons, Disks.run_nil,
      hfile] at hcut
    have hself : (Write.create destination).apply disk destination =
        some { file with bytes := [] } := by
      rw [Write.apply, Function.update_self, hfile]
      rfl
    rw [hself] at hcut
    rw [← congrArg Disks.File.bytes (Option.some.inj hcut)]
  obtain ⟨seen, hseen, hreads, -⟩ := parseConfigFile_ok_iff.1 hok
  have hbytes : seen = ⟨[], false⟩ := by
    rw [Reading.sees, hwhole, hfile, Option.bind_some] at hseen
    rw [Reading.file_eq_some hseen hreads, hempty]
  rw [hbytes] at hseen
  rw [hlayer] at hrequired
  exact complaints_of_empty_file hseen hok language hrequired

/-- A migration is all or nothing, and overwrites nothing, unless there is a file at the destination
and yet nothing keeps the migration from opening it for writing. -/
theorem migrate_iff (faults : Faults) (disk : Disk Text) (source destination : Text) :
    AllOrNothing faults disk source destination ↔
      ¬(disk destination ≠ none ∧ Copies faults disk source destination) := by
  by_cases hcopies : Copies faults disk source destination
  · rw [and_iff_left hcopies, not_not]
    constructor
    · intro h
      by_contra hne
      obtain ⟨file, hfile⟩ := Option.ne_none_iff_exists'.1 hne
      exact not_allOrNothing_of_copies hcopies hfile h
    · exact allOrNothing_of_copies hcopies
  · refine iff_of_true ?_ fun h => hcopies h.2
    rcases migrateConfig_cases faults disk source destination with
      ⟨hyes, -⟩ | ⟨-, complaints, hrefused⟩
    · exact absurd hyes hcopies
    · refine ⟨fun _ n => ?_, fun _ => ?_, fun hdone => ?_⟩
      · rw [hrefused]
        exact congrFun (congrArg (run disk) List.take_nil) destination
      · rw [hrefused]
        rfl
      · rw [hrefused] at hdone
        cases hdone

/-- Nothing fails on its own account. -/
def Faults.none : Faults := ⟨.clean, .clean, .clean, true, fun _ => Option.none, false⟩

/-- A valid legacy file, and a file of the language that may be written and not read. -/
def writeOnly : Disk Text := fun path =>
  if path = lit ".polycallrc" then some ⟨lit "workspace=app\nserver_type=node\n", true, true⟩
  else if path = lit "Polycallrc.node" then some ⟨lit "timeout=30\n", false, true⟩
  else none

/-- The file that cannot be read is overwritten, and the migration reports success. -/
theorem migrate_overwrites :
    ¬ AllOrNothing Faults.none writeOnly (lit ".polycallrc") (lit "Polycallrc.node") := by
  intro h
  have hbefore : writeOnly (lit "Polycallrc.node") = some ⟨lit "timeout=30\n", false, true⟩ := by
    decide +kernel
  have hfirst : (migrateConfig Faults.none writeOnly (lit ".polycallrc")
      (lit "Polycallrc.node")).writes.take 1 = [.create (lit "Polycallrc.node")] := by
    decide +kernel
  have hkept := h.kept (by simp [hbefore]) 1
  rw [hfirst, hbefore] at hkept
  have hcut : run writeOnly [.create (lit "Polycallrc.node")] (lit "Polycallrc.node") =
      some ⟨[], false, true⟩ := by
    decide +kernel
  rw [hcut] at hkept
  exact absurd hkept (by decide +kernel)

end LibPolyCall.Config
