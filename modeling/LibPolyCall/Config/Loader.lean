import LibPolyCall.Config.Entries

/-!
# Loading the hierarchy

`load_hierarchy`, `validate_one` and `show_config` of `polycall_config.c`, with what they call. The
loader parses the project file, the runtime file if there is one, and the file of the language or
the legacy file in its place into one configuration. `Loading` is that configuration on the way,
with the sources recorded and the texts printed so far.

`plan` lists the files that the loader parses. The loader succeeds exactly when each of them is
accepted on top of those before it and the result has the required fields (`loadHierarchy_ok`,
`loadHierarchy_ok_of`).
-/

namespace LibPolyCall.Config

open Scan Lines

/-- `file_exists`. -/
def fileExists (fs : FileSystem) (path : Text) : Bool := (fs path).isSome

/-- `"Polycallfile"`. -/
def polycallfile : Text := lit "Polycallfile"

/-- `"Polycallrc"`. -/
def polycallrc : Text := lit "Polycallrc"

/-- `".polycallrc"`. -/
def legacyPolycallrc : Text := lit ".polycallrc"

/-! ## Required fields -/

/-- The complaint on a field that is not set. -/
def missingField (config : PolycallConfig) (key note : Text) : List Text :=
  if configGet config key = none then [lit "Missing required field: " ++ key ++ note ++ lit "\n"]
  else []

/-- `validate_required`: what it prints. It returns `true` when it prints nothing. -/
def validateRequired (config : PolycallConfig) (requireProjectFields : Bool)
    (language : Option Text) : List Text :=
  (if requireProjectFields then
    missingField config (lit "workspace_root") [] ++ missingField config (lit "log_directory") []
  else []) ++
  (if configGet config (lit "tls_enabled") = some (lit "true") then
    missingField config (lit "cert_file") (lit " (tls_enabled=true)") ++
      missingField config (lit "key_file") (lit " (tls_enabled=true)")
  else []) ++
  match language with
  | none => []
  | some language =>
    missingField config (lit "workspace") [] ++
    match configGet config (lit "server_type") with
    | none => [lit "Missing required field: server_type\n"]
    | some serverType =>
      if serverType ≠ language then
        [lit "server_type '" ++ serverType ++ lit "' does not match Polycallrc." ++ language ++
          lit "\n"]
      else []

/-- The required fields are there. -/
structure Required (config : PolycallConfig) (requireProjectFields : Bool)
    (language : Option Text) : Prop where
  workspaceRoot : requireProjectFields = true → configGet config (lit "workspace_root") ≠ none
  logDirectory : requireProjectFields = true → configGet config (lit "log_directory") ≠ none
  certFile : configGet config (lit "tls_enabled") = some (lit "true") →
    configGet config (lit "cert_file") ≠ none
  keyFile : configGet config (lit "tls_enabled") = some (lit "true") →
    configGet config (lit "key_file") ≠ none
  workspace : ∀ l, language = some l → configGet config (lit "workspace") ≠ none
  serverType : ∀ l, language = some l → configGet config (lit "server_type") = some l

/-- A field is missing just if it has no value. -/
theorem missingField_eq_nil_iff {config : PolycallConfig} {key note : Text} :
    missingField config key note = [] ↔ configGet config key ≠ none := by
  unfold missingField
  split_ifs with h <;> simp [h]

/-- The check of the required fields finds nothing just if they are all there. -/
theorem validateRequired_eq_nil_iff {config : PolycallConfig} {requireProjectFields : Bool}
    {language : Option Text} :
    validateRequired config requireProjectFields language = [] ↔
      Required config requireProjectFields language := by
  -- The two fields of a project.
  have hproject : (if requireProjectFields = true then
      missingField config (lit "workspace_root") [] ++
        missingField config (lit "log_directory") [] else []) = [] ↔
      (requireProjectFields = true → configGet config (lit "workspace_root") ≠ none ∧
        configGet config (lit "log_directory") ≠ none) := by
    split_ifs with h
    · rw [List.append_eq_nil_iff, missingField_eq_nil_iff, missingField_eq_nil_iff]
      exact ⟨fun hs _ => hs, fun hs => hs h⟩
    · exact ⟨fun _ hp => absurd hp h, fun _ => rfl⟩
  -- The two fields that TLS requires.
  have htls : (if configGet config (lit "tls_enabled") = some (lit "true") then
      missingField config (lit "cert_file") (lit " (tls_enabled=true)") ++
        missingField config (lit "key_file") (lit " (tls_enabled=true)") else []) = [] ↔
      (configGet config (lit "tls_enabled") = some (lit "true") →
        configGet config (lit "cert_file") ≠ none ∧ configGet config (lit "key_file") ≠ none) := by
    split_ifs with h
    · rw [List.append_eq_nil_iff, missingField_eq_nil_iff, missingField_eq_nil_iff]
      exact ⟨fun hs _ => hs, fun hs => hs h⟩
    · exact ⟨fun _ hp => absurd hp h, fun _ => rfl⟩
  -- What is left are the fields that a language requires.
  unfold validateRequired
  rw [List.append_eq_nil_iff, List.append_eq_nil_iff, hproject, htls]
  constructor
  · rintro ⟨⟨hp, ht⟩, hl⟩
    refine ⟨fun h => (hp h).1, fun h => (hp h).2, fun h => (ht h).1, fun h => (ht h).2, ?_, ?_⟩
    · rintro l rfl
      exact missingField_eq_nil_iff.1 (List.append_eq_nil_iff.1 hl).1
    · rintro l rfl
      have htype := (List.append_eq_nil_iff.1 hl).2
      cases hget : configGet config (lit "server_type") with
      | none =>
        rw [hget] at htype
        cases htype
      | some serverType =>
        rw [hget] at htype
        dsimp only at htype
        split_ifs at htype with hne
        rw [not_not.1 hne]
  · intro h
    refine ⟨⟨fun hp => ⟨h.workspaceRoot hp, h.logDirectory hp⟩,
      fun ht => ⟨h.certFile ht, h.keyFile ht⟩⟩, ?_⟩
    cases language with
    | none => rfl
    | some l =>
      dsimp only
      rw [h.serverType l rfl, missingField_eq_nil_iff.2 (h.workspace l rfl)]
      dsimp only
      rw [if_neg (not_not.2 rfl), List.append_nil]

/-! ## The hierarchy -/

/-- `valid_language`, on a language that is not `NULL`. -/
def validLanguage (language : Text) : Bool :=
  language ≠ [] ∧ language.all fun b => isAlnum b || b = 45 || b = 95

/-- `LoadedSources`. -/
structure LoadedSources where
  /-- `paths[0]` to `paths[count - 1]`. -/
  paths : List Text
  usedLegacy : Bool
deriving DecidableEq, Repr

/-- `LoadedSources sources = {0}`. -/
def LoadedSources.empty : LoadedSources := ⟨[], false⟩

/-- `record_source`. -/
def recordSource (sources : LoadedSources) (path : Text) : Option LoadedSources :=
  if 3 ≤ sources.paths.length then none
  else some { sources with paths := sources.paths ++ [path.take (pathSize - 1)] }

/-- A load on its way, or at its end. -/
structure Loading where
  config : PolycallConfig
  sources : LoadedSources
  stderr : List Text
  ok : Bool
deriving DecidableEq, Repr

/-- The next step of a load, unless it has failed. -/
def Loading.andThen (s : Loading) (next : Loading → Loading) : Loading :=
  if s.ok then next s else s

/-- A load that prints a text. -/
def Loading.print (s : Loading) (text : Text) : Loading :=
  { s with stderr := s.stderr ++ [text ++ lit "\n"] }

/-- A load that fails here, with a text. -/
def Loading.fail (s : Loading) (text : Text) : Loading := { s.print text with ok := false }

/-- `parse_config_file` and then `record_source`. -/
def loadFile (fs : FileSystem) (path : Text) (layer : ConfigLayer) (s : Loading) : Loading :=
  let out := parseConfigFile fs s.config path layer
  let failed : Loading := ⟨out.config, s.sources, s.stderr ++ out.stderr, false⟩
  if out.ok then
    match recordSource s.sources path with
    | some sources => ⟨out.config, sources, s.stderr ++ out.stderr, true⟩
    | none => failed
  else failed

/-- The path of a language's file, as `snprintf` writes it into an array of 512 bytes. -/
def languagePath (language : Text) : Text := (lit "Polycallrc." ++ language).take (pathSize - 1)

/-- The part of `load_hierarchy` on `Polycallrc`. -/
def loadRuntime (fs : FileSystem) (s : Loading) : Loading :=
  if fileExists fs polycallrc then loadFile fs polycallrc .runtime s else s

/-- `sources->used_legacy = true`. -/
def markLegacy (s : Loading) : Loading :=
  { s with sources := { s.sources with usedLegacy := true } }

/-- The part of `load_hierarchy` under `if (language)`. -/
def loadLanguage (fs : FileSystem) (language : Option Text) (s : Loading) : Loading :=
  match language with
  | none => s
  | some language =>
    if ¬validLanguage language then s.fail (lit "Invalid language name: " ++ language)
    else if fileExists fs (languagePath language) then
      loadFile fs (languagePath language) .language s
    else if fileExists fs legacyPolycallrc then
      (loadFile fs legacyPolycallrc .language
        (s.print (lit "warning: Legacy .polycallrc detected. " ++
          lit "Use Polycallrc.<language> for v1.0.1."))).andThen markLegacy
    else s.fail (lit "Missing runtime override: " ++ languagePath language)

/-- The end of `load_hierarchy`. -/
def checkRequired (language : Option Text) (s : Loading) : Loading :=
  let complaints := validateRequired s.config true language
  { s with stderr := s.stderr ++ complaints, ok := complaints = [] }

/-- `load_hierarchy`. -/
def loadHierarchy (fs : FileSystem) (config : PolycallConfig) (language : Option Text)
    (sources : LoadedSources) : Loading :=
  let start : Loading := ⟨config, sources, [], true⟩
  if ¬fileExists fs polycallfile then
    start.fail (lit "Missing project configuration: Polycallfile")
  else
    (((loadFile fs polycallfile .project start).andThen (loadRuntime fs)).andThen
      (loadLanguage fs language)).andThen (checkRequired language)

/-! ## One file and its name -/

/-- `infer_layer`: the layer of a path, and what it stores in `*language`. -/
def inferLayer (path : Text) : ConfigLayer × Option Text :=
  -- The name starts after the last `/` or `\`, whichever comes later.
  let name :=
    match lastIndex 47 path, lastIndex 92 path with
    | none, none => path
    | some slash, none => path.drop (slash + 1)
    | none, some backslash => path.drop (backslash + 1)
    | some slash, some backslash =>
      path.drop ((if slash < backslash then backslash else slash) + 1)
  if name = polycallfile then (.project, none)
  else if lit "Polycallrc." <+: name ∧ name.drop 11 ≠ [] then (.language, some (name.drop 11))
  else if name = legacyPolycallrc then (.language, none)
  else (.runtime, none)

/-- What a command prints and returns. -/
structure Report where
  code : ℕ
  stdout : List Text
  stderr : List Text
deriving DecidableEq, Repr

/-- `validate_one`. -/
def validateOne (fs : FileSystem) (path : Text) : Report :=
  let layer := (inferLayer path).1
  let language := (inferLayer path).2
  let out := parseConfigFile fs .empty path layer
  if out.ok then
    let complaints := validateRequired out.config (layer = .project) language
    if complaints = [] then
      let warnings :=
        if out.config.warnings = 0 then []
        else lit " with " ++ decimal out.config.warnings.toNat ++ lit " warning(s)"
      ⟨0, [path ++ lit " is valid" ++ warnings ++ lit "\n"], out.stderr⟩
    else ⟨1, [], out.stderr ++ complaints⟩
  else ⟨1, [], out.stderr⟩

/-- The line that `show_config` prints for a server. -/
def ConfigServer.line (s : ConfigServer) : Text :=
  lit "server " ++ s.language ++ lit " " ++ mapping s.hostPort s.targetPort

/-- The line that `show_config` prints for the network state. -/
def networkLine (start : Bool) : Text :=
  lit "network " ++ if start then lit "start" else lit "stop"

/-- The line that `show_config` prints for a setting. -/
def ConfigValue.line (v : ConfigValue) : Text := v.key ++ lit "=" ++ v.value

/-- The lines that `show_config` prints. -/
def showLines (config : PolycallConfig) : List Text :=
  config.servers.map ConfigServer.line ++
    (if config.networkSeen then [networkLine config.networkEnabled] else []) ++
    config.values.map ConfigValue.line

/-- `show_config`. -/
def showConfig (config : PolycallConfig) : Text :=
  (showLines config).flatMap fun line => line ++ lit "\n"

/-! ## The files of a load -/

/-- Files parsed one after the other into one configuration, if all of them are accepted. -/
def parseAll (fs : FileSystem) : PolycallConfig → List (Text × ConfigLayer) → Option PolycallConfig
  | config, [] => some config
  | config, (path, layer) :: files =>
    let out := parseConfigFile fs config path layer
    if out.ok then parseAll fs out.config files else none

/-- The file of a language, or the legacy file where there is none. -/
def overridePath (fs : FileSystem) (language : Text) : Text :=
  if fileExists fs (languagePath language) then languagePath language else legacyPolycallrc

/-- The runtime file, if there is one. -/
def runtimeFiles (fs : FileSystem) : List (Text × ConfigLayer) :=
  if fileExists fs polycallrc then [(polycallrc, .runtime)] else []

/-- The file that a load with a language parses for it. -/
def languageFiles (fs : FileSystem) (language : Option Text) : List (Text × ConfigLayer) :=
  language.toList.map fun language => (overridePath fs language, .language)

/-- The files that a load parses. -/
def plan (fs : FileSystem) (language : Option Text) : List (Text × ConfigLayer) :=
  [(polycallfile, .project)] ++ runtimeFiles fs ++ languageFiles fs language

/-- The first file is parsed first, and the others if it is accepted. -/
theorem parseAll_cons (fs : FileSystem) (config : PolycallConfig) (path : Text)
    (layer : ConfigLayer) (files : List (Text × ConfigLayer)) :
    parseAll fs config ((path, layer) :: files) =
      if (parseConfigFile fs config path layer).ok
      then parseAll fs (parseConfigFile fs config path layer).config files else none := rfl

/-- Two lists of files are parsed one after the other. -/
theorem parseAll_append (fs : FileSystem) (config : PolycallConfig)
    (files files' : List (Text × ConfigLayer)) :
    parseAll fs config (files ++ files') =
      (parseAll fs config files).bind fun config => parseAll fs config files' := by
  induction files generalizing config with
  | nil => rfl
  | cons file files ih =>
    obtain ⟨path, layer⟩ := file
    rw [List.cons_append, parseAll_cons, parseAll_cons]
    split_ifs
    · exact ih _
    · rfl

/-- The load goes from `s` to `s'` by parsing these files, and fails if one is not accepted. -/
structure Loads (fs : FileSystem) (s : Loading) (files : List (Text × ConfigLayer))
    (s' : Loading) : Prop where
  ok_of : ∀ c, parseAll fs s.config files = some c → s'.ok = true
  config_of : s'.ok = true → parseAll fs s.config files = some s'.config
  sources_of : s'.ok = true → s'.sources.paths.length = s.sources.paths.length + files.length

/-- Where nothing is loaded, no files are. -/
theorem Loads.refl {fs : FileSystem} {s : Loading} (hs : s.ok = true) : Loads fs s [] s where
  ok_of _ _ := hs
  config_of _ := rfl
  sources_of _ := rfl

/-- A load that fails where a file is missing. -/
theorem Loads.of_none {fs : FileSystem} {s s' : Loading} {files : List (Text × ConfigLayer)}
    (hnone : parseAll fs s.config files = none) (hok : s'.ok = false) : Loads fs s files s' where
  ok_of c hc := by simp [hnone] at hc
  config_of h := by simp [hok] at h
  sources_of h := by simp [hok] at h

/-- Loads compose. -/
theorem Loads.andThen {fs : FileSystem} {s s' : Loading} {files files' : List (Text × ConfigLayer)}
    {next : Loading → Loading} (h : Loads fs s files s')
    (hnext : s'.ok = true → Loads fs s' files' (next s')) :
    Loads fs s (files ++ files') (s'.andThen next) := by
  unfold Loading.andThen
  by_cases hok : s'.ok = true
  · have hbind : parseAll fs s.config (files ++ files') = parseAll fs s'.config files' := by
      rw [parseAll_append, h.config_of hok, Option.bind_some]
    rw [if_pos hok]
    refine ⟨fun c hc => (hnext hok).ok_of c (hbind ▸ hc), fun hok' => ?_, fun hok' => ?_⟩
    · rw [hbind]
      exact (hnext hok).config_of hok'
    · rw [(hnext hok).sources_of hok', h.sources_of hok, List.length_append, Nat.add_assoc]
  · have hnone : parseAll fs s.config files = none := by
      cases hc : parseAll fs s.config files with
      | none => rfl
      | some c => exact absurd (h.ok_of c hc) hok
    rw [if_neg hok]
    refine .of_none ?_ (by simpa using hok)
    rw [parseAll_append, hnone, Option.bind_none]

/-- Loading a file parses it, as long as there is a place to record it. -/
theorem loadFile_loads (fs : FileSystem) (path : Text) (layer : ConfigLayer) {s : Loading}
    (hs : s.sources.paths.length < 3) :
    Loads fs s [(path, layer)] (loadFile fs path layer s) := by
  have hrecord : recordSource s.sources path =
      some { s.sources with paths := s.sources.paths ++ [path.take (pathSize - 1)] } := by
    unfold recordSource
    rw [if_neg (Nat.not_le.2 hs)]
  unfold loadFile
  dsimp only
  by_cases hok : (parseConfigFile fs s.config path layer).ok = true
  · rw [if_pos hok, hrecord]
    dsimp only
    refine ⟨fun _ _ => rfl, fun _ => ?_, fun _ => ?_⟩
    · rw [parseAll_cons, if_pos hok]
      rfl
    · rw [List.length_append, List.length_singleton, List.length_singleton]
  · rw [if_neg hok]
    refine .of_none ?_ rfl
    rw [parseAll_cons, if_neg hok]

/-- A file that does not exist is not accepted. -/
theorem parseAll_missing {fs : FileSystem} {path : Text} (h : fileExists fs path = false)
    (config : PolycallConfig) (layer : ConfigLayer) (files : List (Text × ConfigLayer)) :
    parseAll fs config ((path, layer) :: files) = none := by
  have hnone : fs path = none := by simpa [fileExists] using h
  unfold parseAll parseConfigFile
  rw [hnone]
  rfl

/-- A message does not change what has been loaded. -/
theorem Loads.of_print {fs : FileSystem} {s s' : Loading} {text : Text}
    {files : List (Text × ConfigLayer)} (h : Loads fs (s.print text) files s') :
    Loads fs s files s' :=
  ⟨h.ok_of, h.config_of, h.sources_of⟩

/-- The runtime layer loads its file, if there is one. -/
theorem loadRuntime_loads (fs : FileSystem) {s : Loading} (hok : s.ok = true)
    (hs : s.sources.paths.length < 3) : Loads fs s (runtimeFiles fs) (loadRuntime fs s) := by
  unfold loadRuntime runtimeFiles
  split_ifs
  · exact loadFile_loads fs polycallrc .runtime hs
  · exact .refl hok

/-- The layer of a valid language loads its file, or the legacy one. -/
theorem loadLanguage_loads (fs : FileSystem) {language : Option Text}
    (hlanguage : ∀ l, language = some l → validLanguage l = true) {s : Loading}
    (hok : s.ok = true) (hs : s.sources.paths.length < 3) :
    Loads fs s (languageFiles fs language) (loadLanguage fs language s) := by
  unfold loadLanguage languageFiles
  cases language with
  | none => exact .refl hok
  | some l =>
    rw [Option.toList_some, List.map_singleton]
    unfold overridePath
    dsimp only
    rw [if_neg (not_not.2 (hlanguage l rfl))]
    by_cases hpath : fileExists fs (languagePath l) = true
    · rw [if_pos hpath, if_pos hpath]
      exact loadFile_loads fs _ _ hs
    · rw [if_neg hpath, if_neg hpath]
      by_cases hlegacy : fileExists fs legacyPolycallrc = true
      · have hmark : ∀ s', s'.ok = true → Loads fs s' [] (markLegacy s') := fun s' hok' =>
          ⟨fun _ _ => hok', fun _ => rfl, fun _ => rfl⟩
        rw [if_pos hlegacy]
        have hprint : ∀ text, Loads fs (s.print text) [(legacyPolycallrc, .language)]
            (loadFile fs legacyPolycallrc .language (s.print text)) := fun text =>
          loadFile_loads fs legacyPolycallrc .language hs
        exact (hprint _).of_print.andThen (hmark _)
      · rw [if_neg hlegacy]
        exact .of_none (parseAll_missing (by simpa using hlegacy) _ _ _) rfl

/-- The three parts of a load before the check of the required fields. -/
theorem loadFiles_loads (fs : FileSystem) {language : Option Text}
    (hlanguage : ∀ l, language = some l → validLanguage l = true) {s : Loading}
    (hs : s.sources.paths = []) :
    Loads fs s (plan fs language)
      (((loadFile fs polycallfile .project s).andThen (loadRuntime fs)).andThen
        (loadLanguage fs language)) := by
  have hstart : s.sources.paths.length = 0 := by rw [hs, List.length_nil]
  have hproject := loadFile_loads fs polycallfile .project (s := s) (by omega)
  have hruntime : Loads fs s ([(polycallfile, .project)] ++ runtimeFiles fs)
      ((loadFile fs polycallfile .project s).andThen (loadRuntime fs)) := by
    refine hproject.andThen fun hok => ?_
    have hlen := hproject.sources_of hok
    rw [List.length_singleton] at hlen
    exact loadRuntime_loads fs hok (by omega)
  refine hruntime.andThen fun hok => ?_
  have hlen := hruntime.sources_of hok
  have hfew : (runtimeFiles fs).length ≤ 1 := by
    unfold runtimeFiles
    split_ifs <;> simp
  rw [List.length_append, List.length_singleton] at hlen
  exact loadLanguage_loads fs hlanguage hok (by omega)

/-- A load whose language has no valid name fails. -/
theorem loadLanguage_invalid (fs : FileSystem) {l : Text} (hl : ¬validLanguage l = true)
    (s : Loading) : (loadLanguage fs (some l) s).ok = false := by
  unfold loadLanguage
  dsimp only
  rw [if_pos hl]
  rfl

/-- After a success, loading goes on. -/
theorem Loading.andThen_of_ok {s : Loading} (hok : s.ok = true) (next : Loading → Loading) :
    s.andThen next = next s := by
  unfold Loading.andThen
  rw [if_pos hok]

/-- What ends in a success has been one before. -/
theorem Loading.ok_of_andThen {s : Loading} {next : Loading → Loading}
    (h : (s.andThen next).ok = true) : s.ok = true ∧ s.andThen next = next s := by
  by_cases hok : s.ok = true
  · exact ⟨hok, andThen_of_ok hok next⟩
  · unfold Loading.andThen at h
    rw [if_neg hok] at h
    exact absurd h hok

/-- The last check succeeds just if the required fields are there. -/
theorem checkRequired_ok_iff {language : Option Text} {s : Loading} :
    (checkRequired language s).ok = true ↔ Required s.config true language := by
  unfold checkRequired
  rw [← validateRequired_eq_nil_iff, decide_eq_true_eq]

/-- A load that succeeds had a language with a valid name, and leaves behind what the files of the
plan say one after the other, with the required fields. -/
theorem loadHierarchy_ok {fs : FileSystem} {language : Option Text}
    (h : (loadHierarchy fs .empty language .empty).ok = true) :
    (∀ l, language = some l → validLanguage l = true) ∧
      parseAll fs .empty (plan fs language) =
        some (loadHierarchy fs .empty language .empty).config ∧
      Required (loadHierarchy fs .empty language .empty).config true language := by
  unfold loadHierarchy at h ⊢
  dsimp only at h ⊢
  by_cases hexists : fileExists fs polycallfile = true
  · rw [if_neg (not_not.2 hexists)] at h ⊢
    obtain ⟨hfiles, hcheck⟩ := Loading.ok_of_andThen h
    have hlanguage : ∀ l, language = some l → validLanguage l = true := by
      rintro l rfl
      by_contra hl
      obtain ⟨-, heq⟩ := Loading.ok_of_andThen hfiles
      rw [heq, loadLanguage_invalid fs hl] at hfiles
      cases hfiles
    rw [hcheck] at h ⊢
    exact ⟨hlanguage, (loadFiles_loads fs hlanguage rfl).config_of hfiles, checkRequired_ok_iff.1 h⟩
  · rw [if_pos hexists] at h
    cases h

/-- A load succeeds when the language has a valid name, the files of the plan are accepted one after
the other, and what they leave has the required fields. -/
theorem loadHierarchy_ok_of {fs : FileSystem} {language : Option Text} {c : PolycallConfig}
    (hlanguage : ∀ l, language = some l → validLanguage l = true)
    (hparse : parseAll fs .empty (plan fs language) = some c)
    (hrequired : Required c true language) :
    (loadHierarchy fs .empty language .empty).ok = true := by
  have hexists : fileExists fs polycallfile = true := by
    by_contra hmissing
    unfold plan at hparse
    rw [List.append_assoc, List.singleton_append,
      parseAll_missing (by simpa using hmissing)] at hparse
    cases hparse
  have hloads := loadFiles_loads fs hlanguage (s := ⟨.empty, .empty, [], true⟩) rfl
  have hfiles := hloads.ok_of c hparse
  have hconfig := hloads.config_of hfiles
  rw [hparse, Option.some_inj] at hconfig
  unfold loadHierarchy
  dsimp only
  rw [if_neg (not_not.2 hexists), Loading.andThen_of_ok hfiles, checkRequired_ok_iff, ← hconfig]
  exact hrequired

end LibPolyCall.Config
