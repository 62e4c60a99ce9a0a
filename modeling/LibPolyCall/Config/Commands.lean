import LibPolyCall.Config.Layers
import LibPolyCall.Config.Migrate
import LibPolyCall.Library.Runs

/-!
# The configuration commands

`polycall_config_cli` chooses by the words of a command line what is done: `load_and_report`,
`validate_one`, `show_rc` or `migrate_config`, or the usage is printed. A command line comes with
how the calls go that open, read and write files for it (`Command`), and `step` takes the disk from
one command line to the next.

Migrations are the only commands that write. As long as none of them opens a file that exists
(`Overwrites`), a run only adds files to the disk: each is a valid file of a language, with the
bytes of a file that was there before the run (`run_keeps_files`). So what a migration has written
is shown by every later command as its source was (`migrate_then_show`).
-/

namespace LibPolyCall.Config

open Scan Lines
open Disks (Disk)
open Runs (final moves)

/-! ## The commands -/

/-- The note on the warnings of a configuration. -/
def warningNote (config : PolycallConfig) : Text :=
  if config.warnings = 0 then []
  else lit " with " ++ decimal config.warnings.toNat ++ lit " warning(s)"

/-- `load_and_report`. -/
def loadAndReport (fs : FileSystem) (language : Option Text) (shows : Bool) : Report :=
  let loading := loadHierarchy fs .empty language .empty
  if !loading.ok then ⟨1, [], loading.stderr⟩
  else if shows then ⟨0, [showConfig loading.config], loading.stderr⟩
  else
    let sources := loading.sources.paths.mapIdx fun i path =>
      decimal (i + 1) ++ lit ". " ++ path ++ lit "\n"
    ⟨0, [lit "Loaded configuration in order:\n"] ++ sources ++
      [lit "Configuration is valid" ++ warningNote loading.config ++ lit "\n"], loading.stderr⟩

/-- The part of `show_rc` on the file that it has selected, after these warnings. -/
def reportRc (fs : FileSystem) (selectedPath language : Text) (validateOnly : Bool)
    (warnings : List Text) : Report :=
  let out := parseConfigFile fs .empty selectedPath .language
  let complaints := validateRequired out.config false (some language)
  if !out.ok then ⟨1, [], warnings ++ out.stderr⟩
  else if complaints ≠ [] then ⟨1, [], warnings ++ out.stderr ++ complaints⟩
  else if validateOnly then
    ⟨0, [selectedPath ++ lit " is valid for " ++ language ++ lit "\n"], warnings ++ out.stderr⟩
  else ⟨0, [showConfig out.config], warnings ++ out.stderr⟩

/-- `show_rc`. -/
def showRc (fs : FileSystem) (language : Text) (validateOnly : Bool) : Report :=
  if ¬validLanguage language then
    ⟨1, [], [lit "Invalid language name: " ++ language ++ lit "\n"]⟩
  else if fileExists fs (languagePath language) then
    reportRc fs (languagePath language) language validateOnly []
  else if fileExists fs legacyPolycallrc then
    reportRc fs legacyPolycallrc language validateOnly
      [lit "warning: Legacy .polycallrc detected. " ++
        lit "Use Polycallrc.<language> for v1.0.1.\n"]
  else
    ⟨1, [], [lit "Missing runtime override: " ++ languagePath language ++ lit "\n"]⟩

/-- `print_config_usage`, and the status that follows it. -/
def usage : Report :=
  ⟨1, [lit "PolyCall configuration commands:\n",
    lit "  polycall config load [language]\n",
    lit "  polycall config validate [path]\n",
    lit "  polycall config show [language]\n",
    lit "  polycall config rc show <language>\n",
    lit "  polycall config rc validate <language>\n",
    lit "  polycall config migrate <source> <Polycallrc.language>\n"], []⟩

/-- A command line, and how it goes when files are opened and read for it. -/
structure Command where
  argv : List Text
  /-- The files of a command that does not migrate. -/
  reads : Text → Reading
  /-- A migration. -/
  faults : Faults

/-- The files as a command that does not migrate finds them. -/
def Command.sees (command : Command) (disk : Disk Text) : FileSystem := fun path =>
  (command.reads path).sees disk path

/-- `polycall_config_cli`, where it returns 0 or 1, on the words after `config`. -/
def configWords (command : Command) (disk : Disk Text) (words : List Text) : Migration :=
  let fs := command.sees disk
  match words with
  | [] => ⟨[], usage⟩
  | word :: args =>
    if word = lit "load" then
      match args with
      | [] => ⟨[], loadAndReport fs none false⟩
      | [language] => ⟨[], loadAndReport fs (some language) false⟩
      | _ => ⟨[], usage⟩
    else if word = lit "validate" then
      match args with
      | [] => ⟨[], loadAndReport fs none false⟩
      | [path] => ⟨[], validateOne fs path⟩
      | _ => ⟨[], usage⟩
    else if word = lit "show" then
      match args with
      | [] => ⟨[], loadAndReport fs none true⟩
      | [language] => ⟨[], loadAndReport fs (some language) true⟩
      | _ => ⟨[], usage⟩
    else if word = lit "migrate" then
      match args with
      | [source, destination] => migrateConfig command.faults disk source destination
      | _ => ⟨[], usage⟩
    else if word = lit "rc" then
      match args with
      | [action, source, destination] =>
        if action = lit "migrate" then migrateConfig command.faults disk source destination
        else ⟨[], usage⟩
      | [action, language] =>
        if action = lit "show" then ⟨[], showRc fs language false⟩
        else if action = lit "validate" then ⟨[], showRc fs language true⟩
        else ⟨[], usage⟩
      | _ => ⟨[], usage⟩
    else ⟨[], usage⟩

/-- `polycall_config_cli`: nothing where it returns -1, and `main` goes on. -/
def configCli (command : Command) (disk : Disk Text) : Option Migration :=
  match command.argv with
  | _ :: word :: words =>
    if word = lit "config" then some (configWords command disk words) else none
  | _ => none

/-- A command line takes the disk on, and is reported. -/
def step (disk : Disk Text) (command : Command) : Disk Text × Option Report :=
  match configCli command disk with
  | some done => (Disks.run disk done.writes, some done.report)
  | none => (disk, none)

/-- The command line migrates this source to this destination. -/
inductive Command.Migrates (command : Command) (source destination : Text) : Prop
  | migrate {program : Text}
    (h : command.argv = [program, lit "config", lit "migrate", source, destination])
  | rc {program : Text}
    (h : command.argv = [program, lit "config", lit "rc", lit "migrate", source, destination])

/-- A migration has its source and its destination as the last words. -/
theorem Command.Migrates.take_reverse {command : Command} {source destination : Text}
    (h : command.Migrates source destination) :
    command.argv.reverse.take 2 = [destination, source] := by
  rcases h with ⟨hargv⟩ | ⟨hargv⟩ <;> rw [hargv] <;> rfl

/-- A command line migrates one source to one destination. -/
theorem Command.Migrates.unique {command : Command} {source destination source' destination' : Text}
    (h : command.Migrates source destination) (h' : command.Migrates source' destination') :
    source = source' ∧ destination = destination' := by
  have hwords := h.take_reverse.symm.trans h'.take_reverse
  rw [List.cons.injEq, List.cons.injEq] at hwords
  exact ⟨hwords.2.1, hwords.1⟩

/-- A migration that opens a file that exists. The check before has not been able to open it. -/
def Overwrites (disk : Disk Text) (command : Command) : Prop :=
  ∃ source destination, command.Migrates source destination ∧ disk destination ≠ none ∧
    Copies command.faults disk source destination

/-! ## One command -/

/-- No words but those of a migration write anything. -/
theorem configWords_cases (command : Command) (disk : Disk Text) (words : List Text) :
    (configWords command disk words).writes = [] ∨
      ∃ source destination, words = [lit "migrate", source, destination] ∨
        words = [lit "rc", lit "migrate", source, destination] := by
  unfold configWords
  dsimp only
  split
  · exact .inl rfl
  next word args =>
  split_ifs with hload hvalidate hshow hmigrate hrc
  · split <;> exact .inl rfl
  · split <;> exact .inl rfl
  · split <;> exact .inl rfl
  · split
    · next source destination =>
      exact .inr ⟨source, destination, .inl (by rw [hmigrate])⟩
    · exact .inl rfl
  · split
    · next action source destination =>
      split_ifs with haction
      · exact .inr ⟨source, destination, .inr (by rw [hrc, haction])⟩
      · exact .inl rfl
    · split_ifs <;> exact .inl rfl
    · exact .inl rfl
  · exact .inl rfl

/-- What a command line does that migrates. -/
theorem step_of_migrates {command : Command} {source destination : Text}
    (h : command.Migrates source destination) (disk : Disk Text) :
    step disk command =
      (Disks.run disk (migrateConfig command.faults disk source destination).writes,
        some (migrateConfig command.faults disk source destination).report) := by
  unfold step configCli
  rcases h with ⟨hargv⟩ | ⟨hargv⟩ <;> rw [hargv] <;> rfl

/-- A command leaves the disk as it is, or it is a migration. -/
theorem step_cases (disk : Disk Text) (command : Command) :
    (step disk command).1 = disk ∨
      ∃ source destination, command.Migrates source destination := by
  unfold step configCli
  rcases hargv : command.argv with _ | ⟨program, _ | ⟨word, words⟩⟩
  · exact .inl rfl
  · exact .inl rfl
  dsimp only
  by_cases hword : word = lit "config"
  swap
  · rw [if_neg hword]
    exact .inl rfl
  rw [if_pos hword]
  dsimp only
  subst hword
  rcases configWords_cases command disk words with hnone | ⟨source, destination, hwords⟩
  · rw [hnone]
    exact .inl rfl
  · refine .inr ⟨source, destination, ?_⟩
    rcases hwords with rfl | rfl
    · exact .migrate hargv
    · exact .rc hargv

/-! ## What a migration adds -/

/-- A file that the file check of the commands accepts as the file of a language. -/
structure Valid (path : Text) (language : Text) (file : Disks.File) : Prop where
  layer : inferLayer path = (.language, some language)
  name : validLanguage language = true
  accepted : ∀ fs : FileSystem, fs path = some ⟨file.bytes, false⟩ →
    (parseConfigFile fs .empty path .language).ok = true ∧
      validateRequired (parseConfigFile fs .empty path .language).config false
        (some language) = []

variable {faults : Faults} {disk : Disk Text} {source destination : Text}

/-- A copy that succeeds changes no file but its destination. -/
theorem run_copyInto_of_ne {warnings : List Text}
    (h : (copyInto faults disk source destination warnings).report.code = 0) {path : Text}
    (hne : path ≠ destination) :
    Disks.run disk (copyInto faults disk source destination warnings).writes path = disk path := by
  rcases copyInto_cases faults disk source destination warnings with
    ⟨hcode, -⟩ | ⟨-, -, hwrites⟩
  · rw [hcode] at h
    cases h
  rw [hwrites]
  refine Disks.run_of_ne fun w hw => ?_
  rcases List.mem_cons.1 hw with rfl | hw
  · exact hne
  · obtain ⟨piece, -, rfl⟩ := List.mem_map.1 hw
    exact hne

/-- A migration that does not open an existing file fails and leaves the disk as it is, or adds a
valid copy of its source, which it has read as a whole. -/
theorem migrateConfig_adds (faults : Faults) (source : Text) (hnew : disk destination ≠ none →
    ¬ Copies faults disk source destination) :
    ((migrateConfig faults disk source destination).report.code ≠ 0 ∧
        Disks.run disk (migrateConfig faults disk source destination).writes = disk) ∨
      ((migrateConfig faults disk source destination).report.code = 0 ∧
        disk destination = none ∧ ∃ original language, disk source = some original ∧
          Disks.run disk (migrateConfig faults disk source destination).writes =
            Function.update disk destination (some ⟨original.bytes, true, true⟩) ∧
          faults.parse.sees disk source = some ⟨original.bytes, false⟩ ∧
          Valid destination language ⟨original.bytes, true, true⟩) := by
  -- Either the copy is made, or the command has complained and written nothing.
  rcases migrateConfig_cases faults disk source destination with
    ⟨hcopies, warnings, hmigrate⟩ | ⟨-, complaints, hrefused⟩
  swap
  · rw [hrefused]
    exact .inl ⟨Nat.one_ne_zero, rfl⟩
  -- The destination is new, so the copy is all or nothing.
  have hnone : disk destination = none := by
    by_contra hsome
    exact hnew hsome hcopies
  have hall := allOrNothing_of_copies hcopies hnone
  by_cases hcode : (migrateConfig faults disk source destination).report.code = 0
  swap
  · exact .inl ⟨hcode, hall.undone hcode⟩
  refine .inr ⟨hcode, hnone, ?_⟩
  -- The bytes of the copy are those that were parsed, since the source was read to its end.
  obtain ⟨original, copy, horiginal, hcopy, hbytes, -⟩ := hall.done hcode
  obtain ⟨-, ⟨language, hlayer, hname, hok, hrequired⟩, -⟩ := hcopies
  obtain ⟨seen, hseen, hwhole, -⟩ := parseConfigFile_ok_iff.1 hok
  have hseen' : faults.parse.sees disk source = some ⟨original.bytes, false⟩ := by
    have hfile := hseen
    rw [Reading.sees, horiginal, Option.bind_some] at hfile
    rw [hseen, Reading.file_eq_some hfile hwhole]
  rw [hmigrate] at hcode hcopy ⊢
  have hfinal := (run_copyInto_of_done hcode).2
  have hplaced : copy = ⟨original.bytes, true, true⟩ := by
    rw [hcopy, hnone] at hfinal
    rw [Option.some.inj hfinal] at hbytes ⊢
    rw [← hbytes]
    rfl
  refine ⟨original, language, horiginal, ?_, hseen', hlayer, hname, fun fs hfs => ?_⟩
  · funext path
    rcases eq_or_ne path destination with rfl | hne
    · rw [Function.update_self, hcopy, hplaced]
    · rw [Function.update_of_ne hne, run_copyInto_of_ne hcode hne]
  · obtain ⟨hcopied, hconfig⟩ := parseConfigFile_congr hseen' hfs hok
    rw [hconfig]
    exact ⟨hcopied, hrequired⟩

/-! ## Runs of commands -/

/-- What is on a disk was there at the start, or is a valid file of a language that holds the bytes
of a file that was there at the start. Nothing that was there is gone or has changed. -/
structure Grown (start disk : Disk Text) : Prop where
  kept : ∀ path, start path ≠ none → disk path = start path
  added : ∀ path file, start path = none → disk path = some file →
    (∃ language, Valid path language file) ∧
      ∃ source original, start source = some original ∧ original.bytes = file.bytes

/-- A disk has grown from itself. -/
theorem Grown.refl (start : Disk Text) : Grown start start where
  kept _ _ := rfl
  added path file hnone hsome := by
    rw [hnone] at hsome
    cases hsome

/-- Every file on a disk that has grown has the bytes of a file that was there at the start. -/
theorem Grown.original {start : Disk Text} (h : Grown start disk) {path : Text}
    {file : Disks.File} (hfile : disk path = some file) :
    ∃ source original, start source = some original ∧ original.bytes = file.bytes := by
  by_cases hstart : start path = none
  · exact (h.added path file hstart hfile).2
  · exact ⟨path, file, (h.kept path hstart).symm.trans hfile, rfl⟩

/-- A command that does not open an existing file only adds to the disk. -/
theorem Grown.command {start : Disk Text} (h : Grown start disk) {command : Command}
    (hnew : ¬ Overwrites disk command) : Grown start (step disk command).1 := by
  rcases step_cases disk command with hsame | ⟨source, destination, hmigrates⟩
  · rw [hsame]
    exact h
  rw [step_of_migrates hmigrates]
  rcases migrateConfig_adds command.faults source
      fun hne hcopies => hnew ⟨source, destination, hmigrates, hne, hcopies⟩ with
    ⟨-, hsame⟩ | ⟨-, hnone, original, language, horiginal, hrun, -, hvalid⟩
  · rw [hsame]
    exact h
  rw [hrun]
  dsimp only
  refine ⟨fun path hstart => ?_, fun path file hstart hfile => ?_⟩
  · have hne : path ≠ destination := by
      rintro rfl
      exact hstart ((h.kept path hstart).symm.trans hnone)
    rw [Function.update_of_ne hne]
    exact h.kept path hstart
  · rcases eq_or_ne path destination with rfl | hne
    · rw [Function.update_self] at hfile
      obtain rfl := Option.some.inj hfile
      have hbytes := h.original horiginal
      exact ⟨⟨language, hvalid⟩, hbytes⟩
    · rw [Function.update_of_ne hne] at hfile
      exact h.added path file hstart hfile

/-- So does a run of such commands. -/
theorem grown_final {start : Disk Text} {commands : List Command}
    (hnew : ∀ m ∈ moves step start commands, ¬ Overwrites m.1 m.2) :
    Grown start (final step start commands) :=
  (Runs.moves_of_step (P := Grown start) (C := fun disk command => ¬ Overwrites disk command)
    (fun _ _ h hnew => h.command hnew) start commands (.refl start) hnew).2

/-- In every run of configuration commands none of which opens a file that exists for a migration,
whatever fails on the way: no file that was there is changed or removed, and every file that is new
is a valid file of the language in its name and holds the bytes of a file that was there at the
start. -/
theorem run_keeps_files (start : Disk Text) (commands : List Command)
    (hnew : ∀ m ∈ moves step start commands, ¬ Overwrites m.1 m.2) :
    Grown start (final step start commands) :=
  grown_final hnew

/-- A disk with a legacy file, which two migrations copy; the second one finds the first copy. -/
def legacyDisk : Disk Text := fun path =>
  if path = legacyPolycallrc then some ⟨lit "workspace=app\nserver_type=node\n", true, true⟩
  else none

/-- A command line whose files are opened, read and written without a failure. -/
def faultless (argv : List Text) : Command := ⟨argv, fun _ => .clean, .none⟩

/-- `polycall config migrate .polycallrc Polycallrc.node`. -/
def migrateLegacy : Command :=
  faultless [lit "polycall", lit "config", lit "migrate", legacyPolycallrc, lit "Polycallrc.node"]

/-- The second migration sees the first copy, and does not overwrite it. -/
theorem not_overwrites_migrateLegacy :
    ∀ m ∈ moves step legacyDisk [migrateLegacy, migrateLegacy], ¬ Overwrites m.1 m.2 := by
  have hmigrates : migrateLegacy.Migrates legacyPolycallrc (lit "Polycallrc.node") := .migrate rfl
  have hfresh : legacyDisk (lit "Polycallrc.node") = none := by decide +kernel
  have hseen : fileExists (Faults.none.check.sees (step legacyDisk migrateLegacy).1)
      (lit "Polycallrc.node") = true := by decide +kernel
  rw [Runs.moves_cons, Runs.moves_cons, Runs.moves_nil]
  rintro m hm ⟨source, destination, hmigrate, hexists, hcopies⟩
  rcases List.mem_cons.1 hm with rfl | hm
  · obtain ⟨rfl, rfl⟩ := hmigrates.unique hmigrate
    exact hexists hfresh
  · obtain rfl := List.mem_singleton.1 hm
    obtain ⟨rfl, rfl⟩ := hmigrates.unique hmigrate
    exact absurd (hseen.symm.trans hcopies.unseen) Bool.noConfusion

/-- Two migrations in turn keep the files that were there. -/
theorem run_keeps_files_twice :
    Grown legacyDisk (final step legacyDisk [migrateLegacy, migrateLegacy]) :=
  run_keeps_files legacyDisk [migrateLegacy, migrateLegacy] not_overwrites_migrateLegacy

/-! ## What was migrated is shown -/

/-- The name of a language that a valid file is for is short enough for the path of its file. -/
theorem Valid.length_lt {path language : Text} {file : Disks.File} (h : Valid path language file) :
    (lit "Polycallrc." ++ language).length < pathSize := by
  obtain ⟨-, hrequired⟩ := h.accepted (fun _ => some ⟨file.bytes, false⟩) rfl
  have hnone : ValidValues PolycallConfig.empty := fun v hv => absurd hv List.not_mem_nil
  have hlength := (hnone.parse (fun _ => some ⟨file.bytes, false⟩) path .language).length_lt
    ((validateRequired_eq_nil_iff.1 hrequired).serverType language rfl)
  have hname : (lit "Polycallrc.").length = 11 := rfl
  rw [List.length_append, hname]
  unfold valueSize at hlength
  unfold pathSize
  omega

/-- `show_rc` reports what a valid file of its language says. -/
theorem showRc_of_valid {language : Text} {file : Disks.File} {fs : FileSystem}
    (hvalid : Valid (lit "Polycallrc." ++ language) language file)
    (hfs : fs (lit "Polycallrc." ++ language) = some ⟨file.bytes, false⟩) :
    let out := parseConfigFile fs .empty (lit "Polycallrc." ++ language) .language
    showRc fs language true = ⟨0, [lit "Polycallrc." ++ language ++ lit " is valid for " ++
        language ++ lit "\n"], out.stderr⟩ ∧
      showRc fs language false = ⟨0, [showConfig out.config], out.stderr⟩ := by
  obtain ⟨hok, hrequired⟩ := hvalid.accepted fs hfs
  have hpath := languagePath_eq hvalid.length_lt
  have hexists : fileExists fs (lit "Polycallrc." ++ language) = true := by
    rw [fileExists, hfs]
    rfl
  have hreport : ∀ validateOnly, showRc fs language validateOnly =
      reportRc fs (lit "Polycallrc." ++ language) language validateOnly [] := by
    intro validateOnly
    unfold showRc
    rw [if_neg (not_not.2 hvalid.name), hpath, if_pos hexists]
  rw [hreport, hreport]
  unfold reportRc
  dsimp only
  rw [hok, hrequired]
  exact ⟨rfl, rfl⟩

/-- `validate_one` accepts a valid file of a language. -/
theorem validateOne_of_valid {path language : Text} {file : Disks.File} {fs : FileSystem}
    (hvalid : Valid path language file) (hfs : fs path = some ⟨file.bytes, false⟩) :
    (validateOne fs path).code = 0 := by
  obtain ⟨hok, hrequired⟩ := hvalid.accepted fs hfs
  unfold validateOne
  rw [hvalid.layer]
  dsimp only
  rw [if_pos hok]
  have hproject : (decide (ConfigLayer.language = ConfigLayer.project)) = false := rfl
  rw [hproject, if_pos hrequired]

/-- The file of a command that reads a path without a failure. -/
theorem Command.sees_of_clean {command : Command} {disk : Disk Text} {path : Text}
    {bytes : List UInt8} (hreads : command.reads path = .clean)
    (hfile : disk path = some ⟨bytes, true, true⟩) :
    command.sees disk path = some ⟨bytes, false⟩ := by
  rw [Command.sees, hreads, Reading.sees, hfile]
  rfl

/-- The report of a configuration command. -/
theorem reply_of_argv {command : Command} {disk : Disk Text} {program : Text} {words : List Text}
    {report : Report} (hargv : command.argv = program :: lit "config" :: words)
    (hreport : (configWords command disk words).report = report) :
    (step disk command).2 = some report := by
  unfold step configCli
  rw [hargv, ← hreport]
  rfl

/-- When a migration to the file of a language has returned 0, every later command line that reads
this file without a failure accepts it, and shows what the migration has read of its source. Other
commands may run in between, as long as none of them opens an existing file for a migration. -/
theorem migrate_then_show {disk : Disk Text} {command : Command} {source language : Text}
    {report : Report} (hlanguage : validLanguage language = true)
    (hmigrates : command.Migrates source (lit "Polycallrc." ++ language))
    (hdone : (step disk command).2 = some report) (hcode : report.code = 0)
    (commands : List Command)
    (hnew : ∀ m ∈ moves step disk (command :: commands), ¬ Overwrites m.1 m.2)
    (later : Command) (hreads : later.reads (lit "Polycallrc." ++ language) = .clean)
    (program : Text) :
    let path := lit "Polycallrc." ++ language
    let config := (parseConfigFile (command.faults.parse.sees disk) .empty source .language).config
    let reply := (step (final step disk (command :: commands)) later).2
    (later.argv = [program, lit "config", lit "rc", lit "validate", language] →
        ∃ stderr, reply =
          some ⟨0, [path ++ lit " is valid for " ++ language ++ lit "\n"], stderr⟩) ∧
      (later.argv = [program, lit "config", lit "rc", lit "show", language] →
        ∃ stderr, reply = some ⟨0, [showConfig config], stderr⟩) ∧
      (later.argv = [program, lit "config", lit "validate", path] →
        ∃ report, reply = some report ∧ report.code = 0) := by
  intro path config reply
  rw [Runs.moves_cons, List.forall_mem_cons] at hnew
  -- The migration has added the file.
  obtain ⟨file, hfile, hplaced, hvalid, hconfig⟩ : ∃ file : Disks.File,
      (step disk command).1 path = some file ∧ file = ⟨file.bytes, true, true⟩ ∧
        Valid path language file ∧ ∀ fs : FileSystem, fs path = some ⟨file.bytes, false⟩ →
          (parseConfigFile fs .empty path .language).config = config := by
    have hstep := step_of_migrates hmigrates disk
    rw [hstep, Option.some.injEq] at hdone
    rcases migrateConfig_adds command.faults source
        fun hne hcopies => hnew.1 ⟨source, path, hmigrates, hne, hcopies⟩ with
      ⟨hfailed, -⟩ | ⟨-, -, original, l, -, hrun, hseen, hvalid⟩
    · exact absurd (hdone ▸ hcode) hfailed
    obtain rfl : language = l := by
      have hlayer := (inferLayer_language hlanguage).symm.trans hvalid.layer
      rw [Prod.mk.injEq, Option.some.injEq] at hlayer
      exact hlayer.2
    refine ⟨⟨original.bytes, true, true⟩, ?_, rfl, hvalid, fun fs hfs => ?_⟩
    · rw [hstep, hrun]
      exact Function.update_self ..
    · exact (parseConfigFile_congr hfs hseen (hvalid.accepted fs hfs).1).2.symm
  -- The commands after it keep it.
  have hkept : final step disk (command :: commands) path = some ⟨file.bytes, true, true⟩ := by
    rw [Runs.final_cons, ← hplaced, ← hfile]
    refine (grown_final hnew.2).kept path ?_
    rw [hfile]
    exact Option.some_ne_none _
  have hsees := Command.sees_of_clean hreads hkept
  obtain ⟨hvalidate, hshow⟩ := showRc_of_valid hvalid hsees
  refine ⟨fun hargv => ?_, fun hargv => ?_, fun hargv => ?_⟩
  · have hreply : reply = some (showRc (later.sees (final step disk (command :: commands)))
        language true) := reply_of_argv hargv rfl
    rw [hreply, hvalidate]
    exact ⟨_, rfl⟩
  · have hreply : reply = some (showRc (later.sees (final step disk (command :: commands)))
        language false) := reply_of_argv hargv rfl
    rw [hreply, hshow, hconfig _ hsees]
    exact ⟨_, rfl⟩
  · have hreply : reply = some (validateOne (later.sees (final step disk (command :: commands)))
        path) := reply_of_argv hargv rfl
    exact ⟨_, hreply, validateOne_of_valid hvalid hsees⟩

/-- What the first of two migrations has written is shown after the second. -/
theorem migrate_then_show_twice : ∃ stderr,
    (step (final step legacyDisk [migrateLegacy, migrateLegacy])
        (faultless [lit "polycall", lit "config", lit "rc", lit "show", lit "node"])).2 =
      some ⟨0, [lit "workspace=app\nserver_type=node\n"], stderr⟩ := by
  obtain ⟨report, hdone, hcode⟩ : ∃ report, (step legacyDisk migrateLegacy).2 = some report ∧
      report.code = 0 := ⟨_, rfl, by decide +kernel⟩
  have hshown : showConfig (parseConfigFile (Faults.none.parse.sees legacyDisk) .empty
      legacyPolycallrc .language).config = lit "workspace=app\nserver_type=node\n" := by
    decide +kernel
  rw [← hshown]
  exact (migrate_then_show (by decide) (.migrate rfl) hdone hcode [migrateLegacy]
    not_overwrites_migrateLegacy
    (faultless [lit "polycall", lit "config", lit "rc", lit "show", lit "node"]) rfl
    (lit "polycall")).2.1 rfl

end LibPolyCall.Config
