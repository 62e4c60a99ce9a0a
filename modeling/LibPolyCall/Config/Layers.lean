import LibPolyCall.Config.Merge

/-!
# Validation composes over the layers

`validate_one` parses a file alone and checks the required fields of its layer. Where it accepts the
files of a load one by one, and together they set no more keys than the table has places, the load
accepts them together (`load_of_valid_layers`).

Whether an entry of the other layers is allowed depends on the table only through its free places,
so a file that is accepted alone is accepted on top of any table whose keys, with its own, have room
(`AllAllowed.transfer`). A field that some file sets is set in the merge. Only the file that sets
`tls_enabled` last decides whether the TLS fields are required, and that file had to set them
itself. The file of the language comes last and sets `server_type`.
-/

namespace LibPolyCall.Config

open Scan Lines

/-! ## Accepted alone, accepted together -/

/-- Entries of another layer than the project's that are allowed on one table are allowed on each
table whose keys, with theirs, are few enough. -/
theorem AllAllowed.transfer {layer : ConfigLayer} (hlayer : layer ≠ .project) {S : Finset Text}
    (hS : S.card ≤ maxValues) {c₀ c : PolycallConfig} {es : List Entry}
    (h : AllAllowed layer c₀ es) (hes : ∀ v ∈ es.filterMap Entry.setting?, v.key ∈ S)
    (hnodup : (c.values.map ConfigValue.key).Nodup)
    (hsub : ∀ k ∈ c.values.map ConfigValue.key, k ∈ S) : AllAllowed layer c es := by
  induction es generalizing c₀ c with
  | nil => trivial
  | cons e es ih =>
    have hrest : ∀ v ∈ es.filterMap Entry.setting?, v.key ∈ S := fun v hv =>
      hes v (List.mem_filterMap.2 (by
        obtain ⟨e', he', hsetting⟩ := List.mem_filterMap.1 hv
        exact ⟨e', List.mem_cons_of_mem _ he', hsetting⟩))
    cases e with
    | blank => exact ⟨trivial, ih h.2 hrest hnodup hsub⟩
    | malformed => exact absurd h.1 id
    | server s => exact absurd h.1.1 hlayer
    | network start => exact absurd h.1 hlayer
    | setting v =>
      -- Whatever the table holds, its keys and this one are among the few of `S`.
      have hkey : v.key ∈ S := hes v (List.mem_filterMap.2 ⟨_, List.mem_cons_self, rfl⟩)
      refine ⟨⟨h.1.1, Keyed.room hnodup hS hsub hkey⟩,
        ih h.2 hrest (Keyed.nodup_put hnodup v) fun k hk => ?_⟩
      rcases Keyed.mem_keys_put.1 hk with rfl | hk
      · exact hkey
      · exact hsub k hk

/-- The keys that these files set. -/
def configKeys (files : List File) : Finset Text :=
  ((files.flatMap File.settings).map ConfigValue.key).toFinset

/-- The key of a setting is among the keys of the files. -/
theorem key_mem_configKeys {files : List File} {file : File} (hfile : file ∈ files)
    {v : ConfigValue} (hv : v ∈ file.settings) : v.key ∈ configKeys files :=
  List.mem_toFinset.2 (List.mem_map_of_mem (List.mem_flatMap.2 ⟨file, hfile, hv⟩))

/-- A file of another layer than the project's that is accepted alone is accepted on top of a table
whose keys, with its own, are few enough. -/
theorem parseConfigFile_transfer {fs : FileSystem} {path : Text} {layer : ConfigLayer}
    (hlayer : layer ≠ .project) {S : Finset Text} (hS : S.card ≤ maxValues)
    {c₀ c : PolycallConfig} {file : File} (hfile : fs path = some file)
    (h : (parseConfigFile fs c₀ path layer).ok = true) (hkeys : ∀ v ∈ file.settings, v.key ∈ S)
    (hnodup : (c.values.map ConfigValue.key).Nodup)
    (hsub : ∀ k ∈ c.values.map ConfigValue.key, k ∈ S) :
    (parseConfigFile fs c path layer).ok = true := by
  obtain ⟨hreads, hwhole, hallowed⟩ := accepted_of_ok hfile h
  refine parseConfigFile_ok_iff.2 ⟨file, hfile, hreads, hwhole, ?_⟩
  refine hallowed.transfer hlayer hS ?_ hnodup hsub
  rw [filterMap_entries rfl hreads hwhole]
  exact hkeys

/-- Files of other layers that are accepted alone are accepted one after the other. -/
theorem parseAll_transfer {fs : FileSystem} {S : Finset Text} (hS : S.card ≤ maxValues)
    {files : List (Text × ConfigLayer)} (hlayers : ∀ file ∈ files, file.2 ≠ .project)
    (halone : ∀ file ∈ files, (parseConfigFile fs .empty file.1 file.2).ok = true)
    (hkeys : ∀ file ∈ filesOf fs files, ∀ v ∈ file.settings, v.key ∈ S) {c : PolycallConfig}
    (hnodup : (c.values.map ConfigValue.key).Nodup)
    (hsub : ∀ k ∈ c.values.map ConfigValue.key, k ∈ S) : ∃ c', parseAll fs c files = some c' := by
  induction files generalizing c with
  | nil => exact ⟨c, rfl⟩
  | cons p files ih =>
    obtain ⟨path, layer⟩ := p
    have hfirst := halone _ List.mem_cons_self
    obtain ⟨file, hfile, -⟩ := parseConfigFile_ok_iff.1 hfirst
    rw [filesOf_cons_some hfile, List.forall_mem_cons] at hkeys
    have hok := parseConfigFile_transfer (hlayers _ List.mem_cons_self) hS hfile hfirst hkeys.1
      hnodup hsub
    have hvalues := parseConfigFile_values hfile hok
    rw [parseAll_cons, if_pos hok]
    refine ih (fun p hp => hlayers p (List.mem_cons_of_mem _ hp))
      (fun p hp => halone p (List.mem_cons_of_mem _ hp)) hkeys.2 ?_ fun k hk => ?_
    · rw [hvalues]
      exact Keyed.nodup_foldl_put hnodup _
    · rw [hvalues, Keyed.mem_keys_foldl_put] at hk
      rcases hk with hk | hk
      · obtain ⟨v, hv, rfl⟩ := List.mem_map.1 hk
        exact hkeys.1 v hv
      · exact hsub k hk

/-! ## Fields of one file, fields of the merge -/

/-- What a file of a load leaves behind alone. -/
def alone (fs : FileSystem) (p : Text × ConfigLayer) : Outcome :=
  parseConfigFile fs .empty p.1 p.2

/-- A file that is parsed alone gives each key its last value in the file. -/
theorem configGet_alone {fs : FileSystem} {p : Text × ConfigLayer} {file : File}
    (hfile : fs p.1 = some file) (hok : (alone fs p).ok = true) (key : Text) :
    configGet (alone fs p).config key =
      (Keyed.last ConfigValue.key key file.settings).map ConfigValue.value := by
  unfold configGet alone
  rw [parseConfigFile_values hfile hok, Keyed.find_foldl_put]
  exact congrArg _ Option.or_none

/-- Files that are parsed in turn give each key its last value in all of them. -/
theorem configGet_parseAll {fs : FileSystem} {files : List (Text × ConfigLayer)}
    {c : PolycallConfig} (h : parseAll fs .empty files = some c) (key : Text) :
    configGet c key = (Keyed.last ConfigValue.key key
      ((filesOf fs files).flatMap File.settings)).map ConfigValue.value := by
  unfold configGet
  rw [parseAll_values h, Keyed.find_foldl_put]
  exact congrArg _ Option.or_none

/-- A file that is there is among the files read. -/
theorem mem_filesOf {fs : FileSystem} {p : Text × ConfigLayer} {file : File}
    {files : List (Text × ConfigLayer)} (hp : p ∈ files) (hfile : fs p.1 = some file) :
    file ∈ filesOf fs files :=
  List.mem_filterMap.2 ⟨p, hp, hfile⟩

/-- A field that one of the files sets alone is set in the merge. -/
theorem configGet_ne_none {fs : FileSystem} {files : List (Text × ConfigLayer)}
    {c : PolycallConfig} (h : parseAll fs .empty files = some c) {p : Text × ConfigLayer}
    (hp : p ∈ files) (hok : (alone fs p).ok = true) {key : Text}
    (hset : configGet (alone fs p).config key ≠ none) : configGet c key ≠ none := by
  obtain ⟨file, hfile, -⟩ := parseConfigFile_ok_iff.1 hok
  rw [configGet_alone hfile hok, Ne, Option.map_eq_none_iff, Keyed.last_eq_none_iff,
    not_not] at hset
  rw [configGet_parseAll h, Ne, Option.map_eq_none_iff, Keyed.last_eq_none_iff, not_not]
  obtain ⟨v, hv, rfl⟩ := List.mem_map.1 hset
  exact List.mem_map_of_mem (List.mem_flatMap.2 ⟨file, mem_filesOf hp hfile, hv⟩)

/-- A value of the merge is the value that one of the files has alone. -/
theorem exists_configGet_alone {fs : FileSystem} {files : List (Text × ConfigLayer)}
    {c : PolycallConfig} (h : parseAll fs .empty files = some c)
    (halone : ∀ p ∈ files, (alone fs p).ok = true) {key value : Text}
    (hget : configGet c key = some value) :
    ∃ p ∈ files, configGet (alone fs p).config key = some value := by
  rw [configGet_parseAll h] at hget
  obtain ⟨v, hlast, hvalue⟩ := Option.map_eq_some_iff.1 hget
  obtain ⟨file, hmem, hlast⟩ := Keyed.last_flatMap hlast
  obtain ⟨p, hp, hfile⟩ := List.mem_filterMap.1 hmem
  refine ⟨p, hp, ?_⟩
  rw [configGet_alone hfile (halone p hp), hlast, Option.map_some, hvalue]

/-- The last file decides on the fields that it sets. -/
theorem configGet_of_last {fs : FileSystem} {files : List (Text × ConfigLayer)}
    {p : Text × ConfigLayer} {c : PolycallConfig}
    (h : parseAll fs .empty (files ++ [p]) = some c) (hok : (alone fs p).ok = true)
    {key value : Text} (hget : configGet (alone fs p).config key = some value) :
    configGet c key = some value := by
  obtain ⟨file, hfile, -⟩ := parseConfigFile_ok_iff.1 hok
  rw [configGet_alone hfile hok] at hget
  obtain ⟨v, hlast, hvalue⟩ := Option.map_eq_some_iff.1 hget
  have hfiles : filesOf fs (files ++ [p]) = filesOf fs files ++ [file] := by
    unfold filesOf
    rw [List.filterMap_append, List.filterMap_cons, hfile]
    rfl
  rw [configGet_parseAll h, hfiles, List.flatMap_append, List.flatMap_singleton,
    Keyed.last_append, hlast, Option.some_or, Option.map_some, hvalue]

/-- What `validate_one` requires of the file at its layer. -/
def requiredLanguage (language : Option Text) (layer : ConfigLayer) : Option Text :=
  if layer = .language then language else none

/-- A file of a load that `validate_one` accepts. -/
structure ValidLayer (fs : FileSystem) (language : Option Text) (p : Text × ConfigLayer) :
    Prop where
  ok : (alone fs p).ok = true
  required : Required (alone fs p).config (p.2 = .project) (requiredLanguage language p.2)

/-- The merge of valid layers has the required fields. -/
theorem required_of_validLayers {fs : FileSystem} {language : Option Text} {c : PolycallConfig}
    (h : parseAll fs .empty (plan fs language) = some c)
    (hvalid : ∀ p ∈ plan fs language, ValidLayer fs language p) : Required c true language := by
  have hok : ∀ p ∈ plan fs language, (alone fs p).ok = true := fun p hp => (hvalid p hp).ok
  have hproject : (polycallfile, ConfigLayer.project) ∈ plan fs language :=
    List.mem_append_left _ (List.mem_append_left _ List.mem_cons_self)
  have hset : ∀ p ∈ plan fs language, ∀ key, configGet (alone fs p).config key ≠ none →
      configGet c key ≠ none := fun p hp key => configGet_ne_none h hp (hok p hp)
  -- TLS is on in the merge where the file that sets it last has it on.
  have htls : configGet c (lit "tls_enabled") = some (lit "true") →
      ∃ p ∈ plan fs language,
        configGet (alone fs p).config (lit "tls_enabled") = some (lit "true") :=
    exists_configGet_alone h hok
  have hlanguage : ∀ l, language = some l →
      (overridePath fs l, ConfigLayer.language) ∈ plan fs language := by
    rintro l rfl
    exact List.mem_append_right _ List.mem_cons_self
  constructor
  · intro _
    exact hset _ hproject _ ((hvalid _ hproject).required.workspaceRoot rfl)
  · intro _
    exact hset _ hproject _ ((hvalid _ hproject).required.logDirectory rfl)
  · intro hon
    obtain ⟨p, hp, hon⟩ := htls hon
    exact hset p hp _ ((hvalid p hp).required.certFile hon)
  · intro hon
    obtain ⟨p, hp, hon⟩ := htls hon
    exact hset p hp _ ((hvalid p hp).required.keyFile hon)
  · intro l hl
    have hp := hlanguage l hl
    exact hset _ hp _ ((hvalid _ hp).required.workspace l hl)
  · rintro l rfl
    have hp := hlanguage l rfl
    exact configGet_of_last h (hok _ hp) ((hvalid _ hp).required.serverType l rfl)

/-- Valid layers whose keys are few enough are loaded. -/
theorem load_of_validLayers {fs : FileSystem} {language : Option Text}
    (hlanguage : ∀ l, language = some l → validLanguage l = true)
    (hshort : ∀ l, language = some l → (lit "Polycallrc." ++ l).length < pathSize)
    (hvalid : ∀ p ∈ plan fs language, ValidLayer fs language p)
    (hkeys : (configKeys ((fs polycallfile).toList ++ otherFiles fs language)).card ≤ maxValues) :
    (loadHierarchy fs .empty language .empty).ok = true := by
  rw [← filesOf_plan fs hshort] at hkeys
  have hmem : ∀ file ∈ filesOf fs (plan fs language), ∀ v ∈ file.settings,
      v.key ∈ configKeys (filesOf fs (plan fs language)) := fun file hfile v hv =>
    key_mem_configKeys hfile hv
  set S := configKeys (filesOf fs (plan fs language))
  have hproject : (parseConfigFile fs .empty polycallfile .project).ok = true :=
    (hvalid (polycallfile, .project)
      (List.mem_append_left _ (List.mem_append_left _ List.mem_cons_self))).ok
  obtain ⟨project, hfile, -⟩ := parseConfigFile_ok_iff.1 hproject
  have hplan : plan fs language =
      (polycallfile, .project) :: (runtimeFiles fs ++ languageFiles fs language) := by
    unfold plan
    rw [List.append_assoc, List.singleton_append]
  have hvalues := parseConfigFile_values hfile hproject
  rw [hplan, filesOf_cons_some hfile, List.forall_mem_cons] at hmem
  -- The project file is parsed as it is alone; the others are parsed on top of it.
  have hparse : ∃ c, parseAll fs .empty (plan fs language) = some c := by
    have hothers : ∀ p ∈ runtimeFiles fs ++ languageFiles fs language,
        (alone fs p).ok = true := fun p hp =>
      (hvalid p (hplan ▸ List.mem_cons_of_mem _ hp)).ok
    rw [hplan, parseAll_cons, if_pos hproject]
    refine parseAll_transfer hkeys (fun p hp => layer_of_mem_plan hp) hothers hmem.2 ?_ ?_
    · rw [hvalues]
      exact Keyed.nodup_foldl_put (t := []) List.nodup_nil _
    · intro k hk
      rw [hvalues, Keyed.mem_keys_foldl_put] at hk
      rcases hk with hk | hk
      · obtain ⟨v, hv, rfl⟩ := List.mem_map.1 hk
        exact hmem.1 v hv
      · cases hk
  obtain ⟨c, hparse⟩ := hparse
  exact loadHierarchy_ok_of hlanguage hparse (required_of_validLayers hparse hvalid)

/-! ## The names of the files -/

/-- `validate_one` accepts a file when it is accepted alone, at the layer of its name, and has the
fields that are required of this layer. -/
theorem validateOne_code_eq_zero {fs : FileSystem} {path : Text}
    (h : (validateOne fs path).code = 0) :
    (parseConfigFile fs .empty path (inferLayer path).1).ok = true ∧
      Required (parseConfigFile fs .empty path (inferLayer path).1).config
        ((inferLayer path).1 = .project) (inferLayer path).2 := by
  unfold validateOne at h
  dsimp only at h
  by_cases hok : (parseConfigFile fs .empty path (inferLayer path).1).ok = true
  · rw [if_pos hok] at h
    refine ⟨hok, validateRequired_eq_nil_iff.1 ?_⟩
    by_contra hrequired
    rw [if_neg hrequired] at h
    cases h
  · rw [if_neg hok] at h
    cases h

/-- A `Polycallfile` is of the project layer. -/
theorem inferLayer_polycallfile : inferLayer polycallfile = (.project, none) := by decide

/-- A `.polycallrc` is of the runtime layer. -/
theorem inferLayer_polycallrc : inferLayer polycallrc = (.runtime, none) := by decide

/-- The name of a language's file has its layer and its language. -/
theorem inferLayer_language {l : Text} (hl : validLanguage l = true) :
    inferLayer (lit "Polycallrc." ++ l) = (.language, some l) := by
  unfold validLanguage at hl
  rw [decide_eq_true_eq, List.all_eq_true] at hl
  obtain ⟨hne, hall⟩ := hl
  have hnone : ∀ b, b ∉ lit "Polycallrc." → (isAlnum b || b = 45 || b = 95) = false →
      lastIndex b (lit "Polycallrc." ++ l) = none := by
    intro b hb hbad
    refine lastIndex_eq_none fun hmem => ?_
    rcases List.mem_append.1 hmem with hmem | hmem
    · exact hb hmem
    · have hgood := hall b hmem
      rw [hbad] at hgood
      cases hgood
  -- The names differ in their ninth byte.
  have hproject : lit "Polycallrc." ++ l ≠ polycallfile := by
    intro heq
    have htake : lit "Polycallr" = lit "Polycallf" := congrArg (List.take 9) heq
    exact absurd htake (by decide)
  have hdrop : (lit "Polycallrc." ++ l).drop 11 = l := rfl
  unfold inferLayer
  rw [hnone 47 (by decide) (by decide), hnone 92 (by decide) (by decide)]
  dsimp only
  rw [if_neg hproject, hdrop, if_pos ⟨List.prefix_append _ _, hne⟩]

/-- Where `validate_one` accepts `Polycallfile` and, if it exists, `Polycallrc`, and both set at
most 128 keys, a load without a language succeeds. Where it also accepts `Polycallrc.<l>` for a
valid name `l`, and the three set at most 128 keys, a load for `l` succeeds. -/
theorem load_of_valid_layers {fs : FileSystem} (hproject : (validateOne fs polycallfile).code = 0)
    (hruntime : fileExists fs polycallrc = true → (validateOne fs polycallrc).code = 0) :
    ((configKeys ((fs polycallfile).toList ++ otherFiles fs none)).card ≤ 128 →
      (loadHierarchy fs .empty none .empty).ok = true) ∧
    ∀ l, validLanguage l = true → (lit "Polycallrc." ++ l).length < pathSize →
      (validateOne fs (lit "Polycallrc." ++ l)).code = 0 →
      (configKeys ((fs polycallfile).toList ++ otherFiles fs (some l))).card ≤ 128 →
      (loadHierarchy fs .empty (some l) .empty).ok = true := by
  have hvalid : ∀ language, ∀ p ∈ [(polycallfile, .project)] ++ runtimeFiles fs,
      ValidLayer fs language p := by
    intro language p hp
    rcases List.mem_append.1 hp with hp | hp
    · obtain rfl := List.mem_singleton.1 hp
      have hone := validateOne_code_eq_zero hproject
      rw [inferLayer_polycallfile] at hone
      exact ⟨hone.1, hone.2⟩
    · unfold runtimeFiles at hp
      split_ifs at hp with hexists
      · obtain rfl := List.mem_singleton.1 hp
        have hone := validateOne_code_eq_zero (hruntime hexists)
        rw [inferLayer_polycallrc] at hone
        exact ⟨hone.1, hone.2⟩
      · cases hp
  constructor
  · intro hkeys
    refine load_of_validLayers (fun _ h => nomatch h) (fun _ h => nomatch h) (fun p hp => ?_) hkeys
    refine hvalid none p ((List.mem_append.1 hp).resolve_right fun hp => ?_)
    cases hp
  · intro l hl hshort hlanguage hkeys
    have hone := validateOne_code_eq_zero hlanguage
    rw [inferLayer_language hl] at hone
    -- The file of the language exists, so the legacy file is not looked at.
    have hpath : overridePath fs l = lit "Polycallrc." ++ l := by
      obtain ⟨file, hfile, -⟩ := parseConfigFile_ok_iff.1 hone.1
      unfold overridePath fileExists
      rw [languagePath_eq hshort, hfile, Option.isSome_some, if_pos rfl]
    refine load_of_validLayers ?_ ?_ (fun p hp => ?_) hkeys
    · rintro l' ⟨⟩
      exact hl
    · rintro l' ⟨⟩
      exact hshort
    · rcases List.mem_append.1 hp with hp | hp
      · exact hvalid (some l) p hp
      · obtain rfl := List.mem_singleton.1 hp
        show ValidLayer fs (some l) (overridePath fs l, .language)
        rw [hpath]
        exact ⟨hone.1, hone.2⟩

/-- Three layers that turn TLS on, off and on again. -/
def switchingTls : FileSystem := fun path =>
  if path = polycallfile then
    some ⟨lit "workspace_root=/w\nlog_directory=/l\ntls_enabled=true\ncert_file=c\nkey_file=k",
      false⟩
  else if path = polycallrc then some ⟨lit "tls_enabled=false", false⟩
  else if path = lit "Polycallrc.node" then
    some ⟨lit "workspace=/n\nserver_type=node\ntls_enabled=true\ncert_file=d\nkey_file=k", false⟩
  else none

/-- They are loaded, with the language and without it. -/
theorem load_of_valid_layers_switchingTls :
    (loadHierarchy switchingTls .empty none .empty).ok = true ∧
      (loadHierarchy switchingTls .empty (some (lit "node")) .empty).ok = true :=
  have hloads := @load_of_valid_layers switchingTls (by decide +kernel) (by decide +kernel)
  ⟨hloads.1 (by decide +kernel),
    hloads.2 (lit "node") (by decide) (by decide) (by decide +kernel) (by decide +kernel)⟩

end LibPolyCall.Config
