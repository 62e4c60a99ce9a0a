import LibPolyCall.Config.Loader

/-!
# Layers are merged

The reference for a load: the lines of a file are the pieces of its bytes between newlines, a
setting of a later line or a later file replaces one of an earlier, and servers and the network
state are those of the project file (`Merged`). `load_merged` shows that a load that succeeds leaves
just this behind, whatever the files hold.

The parser sees chunks and not lines. Where it accepts a file, each chunk is a line
(`filterMap_entries`), so the settings that it folds into the table are those of the lines
(`parseAll_values`). The table is folded by `Keyed.put`, whose runs are last-writer-wins.
-/

namespace LibPolyCall.Config

open Scan Lines

/-- The setting in an entry. -/
def Entry.setting? : Entry → Option ConfigValue
  | .setting v => some v
  | _ => none

/-- The server in an entry. -/
def Entry.server? : Entry → Option ConfigServer
  | .server s => some s
  | _ => none

/-- The network state in an entry. -/
def Entry.network? : Entry → Option Bool
  | .network start => some start
  | _ => none

namespace File

variable (file : File)

/-- What the lines of a file say. -/
def entries : List Entry := (file.bytes.splitOn newline).map fun line => readEntry (content line)

/-- The `key=value` lines. -/
def settings : List ConfigValue := file.entries.filterMap Entry.setting?

/-- The `server` lines. -/
def servers : List ConfigServer := file.entries.filterMap Entry.server?

/-- The `network` lines, with `true` for `network start`. -/
def switches : List Bool := file.entries.filterMap Entry.network?

end File

/-- A configuration merged from the project file and from others that follow it: the last setting of
a key wins, and the servers and the network state are those of the project file. -/
structure Merged (c : PolycallConfig) (project : File) (others : List File) : Prop where
  nodup : (c.values.map ConfigValue.key).Nodup
  get : ∀ key, configGet c key =
    (Keyed.last ConfigValue.key key ((project :: others).flatMap File.settings)).map
      ConfigValue.value
  servers : c.servers = project.servers
  networkSeen : c.networkSeen = (project.switches ≠ [] : Bool)
  networkEnabled : c.networkEnabled = project.switches.getLast?.getD false

/-- The other files of a load: `Polycallrc` if there is one, and for a language its own file, or the
legacy file in its place. -/
def otherFiles (fs : FileSystem) (language : Option Text) : List File :=
  (fs polycallrc).toList ++
    language.toList.flatMap fun l =>
      ((fs (lit "Polycallrc." ++ l)).or (fs legacyPolycallrc)).toList

/-! ## Chunks and lines -/

/-- A file that can be read to its end is read in chunks of a line. -/
theorem chunks_of_reads {file : File} (hreads : file.readFails = false) :
    file.chunks = Lines.chunks (lineSize - 1) [] file.bytes := by
  unfold File.chunks
  rw [hreads]
  exact List.filter_eq_self.2 fun _ _ => rfl

/-- Where the parser sees whole lines only, it sees what the lines of the file say. -/
theorem filterMap_entries {β : Type*} {g : Entry → Option β} (hg : g .blank = none) {file : File}
    (hreads : file.readFails = false) (hwhole : ∀ raw ∈ file.chunks, Complete raw) :
    (entries file.chunks).filterMap g = file.entries.filterMap g := by
  rw [chunks_of_reads hreads] at hwhole ⊢
  have hlines : ∀ raw ∈ Lines.chunks (lineSize - 1) [] file.bytes,
      g (readEntry (content raw.bytes)) = g (readEntry (content (before newline raw.bytes))) := by
    intro raw hraw
    rcases shape_of_mem_chunks _ (by simp) hraw with hnone | hended
    · rw [before_eq_self hnone]
    · rw [hended, content_append_newline, before_append_cons (notMem_before _ _)]
  -- The parser looks for the newline in front of the first zero byte only.
  have hended : ∀ raw ∈ Lines.chunks (lineSize - 1) [] file.bytes,
      newline ∈ raw.bytes ∨ raw.eof = true := fun raw hraw =>
    (hwhole raw hraw).imp_left mem_of_mem_before
  have hblank : g (readEntry (content [])) = none := hg
  have hchunks := filterMap_chunks (g := fun line => g (readEntry (content line))) hblank
    (lineSize - 1) (by simp) hended
  rw [List.nil_append] at hchunks
  unfold entries File.entries
  rw [List.filterMap_map, List.filterMap_map]
  exact (List.filterMap_congr hlines).trans hchunks

/-! ## Folding entries -/

/-- The values that entries leave are those of their settings, put in turn. -/
theorem foldl_apply_values (layer : ConfigLayer) (es : List Entry) (c : PolycallConfig) :
    (es.foldl (Entry.apply layer) c).values =
      (es.filterMap Entry.setting?).foldl (Keyed.put ConfigValue.key) c.values := by
  induction es generalizing c with
  | nil => rfl
  | cons e es ih =>
    rw [List.foldl_cons, ih]
    cases e <;> rfl

/-- The servers of the entries come behind those that were there. -/
theorem foldl_apply_servers (layer : ConfigLayer) (es : List Entry) (c : PolycallConfig) :
    (es.foldl (Entry.apply layer) c).servers = c.servers ++ es.filterMap Entry.server? := by
  induction es generalizing c with
  | nil => rw [List.foldl_nil, List.filterMap_nil, List.append_nil]
  | cons e es ih =>
    rw [List.foldl_cons, ih]
    cases e with
    | server s =>
      have hcons : (Entry.server s :: es).filterMap Entry.server? =
          [s] ++ es.filterMap Entry.server? := rfl
      rw [hcons, ← List.append_assoc]
      rfl
    | setting v =>
      have hwarn := (sameTables_warn c layer v.key).servers
      rw [← hwarn]
      rfl
    | blank => rfl
    | network start => rfl
    | malformed => rfl

/-- The last `network` entry decides, if there is one. -/
theorem foldl_apply_network (layer : ConfigLayer) (es : List Entry) (c : PolycallConfig) :
    (es.foldl (Entry.apply layer) c).networkSeen =
        (c.networkSeen || (es.filterMap Entry.network? ≠ [] : Bool)) ∧
      (es.foldl (Entry.apply layer) c).networkEnabled =
        (es.filterMap Entry.network?).getLast?.getD c.networkEnabled := by
  induction es generalizing c with
  | nil => simp
  | cons e es ih =>
    rw [List.foldl_cons, (ih _).1, (ih _).2]
    cases e with
    | network start =>
      have hcons : (Entry.network start :: es).filterMap Entry.network? =
          start :: es.filterMap Entry.network? := rfl
      rw [hcons, List.getLast?_cons]
      simp [Entry.apply]
    | setting v =>
      have hseen := (sameTables_warn c layer v.key).networkSeen
      have henabled := (sameTables_warn c layer v.key).networkEnabled
      rw [← hseen, ← henabled]
      exact ⟨rfl, rfl⟩
    | blank => exact ⟨rfl, rfl⟩
    | server s => exact ⟨rfl, rfl⟩
    | malformed => exact ⟨rfl, rfl⟩

/-! ## One file -/

/-- An accepted file puts its settings into the table. -/
theorem parseConfigFile_values {fs : FileSystem} {c : PolycallConfig} {path : Text}
    {layer : ConfigLayer} {file : File} (hfile : fs path = some file)
    (h : (parseConfigFile fs c path layer).ok = true) :
    (parseConfigFile fs c path layer).config.values =
      file.settings.foldl (Keyed.put ConfigValue.key) c.values := by
  obtain ⟨hreads, hwhole, -⟩ := accepted_of_ok hfile h
  rw [parseConfigFile_config hfile h, foldl_apply_values, filterMap_entries rfl hreads hwhole]
  rfl

/-- An accepted project file, from the empty configuration, sets the servers and the network state
that its lines say. -/
theorem parseConfigFile_topology {fs : FileSystem} {path : Text} {layer : ConfigLayer} {file : File}
    (hfile : fs path = some file) (h : (parseConfigFile fs .empty path layer).ok = true) :
    (parseConfigFile fs .empty path layer).config.servers = file.servers ∧
      (parseConfigFile fs .empty path layer).config.networkSeen = (file.switches ≠ [] : Bool) ∧
      (parseConfigFile fs .empty path layer).config.networkEnabled =
        file.switches.getLast?.getD false := by
  obtain ⟨hreads, hwhole, -⟩ := accepted_of_ok hfile h
  rw [parseConfigFile_config hfile h, foldl_apply_servers, (foldl_apply_network _ _ _).1,
    (foldl_apply_network _ _ _).2, filterMap_entries rfl hreads hwhole,
    filterMap_entries rfl hreads hwhole]
  exact ⟨rfl, rfl, rfl⟩

/-- Two configurations with the same servers and the same network state. -/
structure SameTopology (c c' : PolycallConfig) : Prop where
  servers : c.servers = c'.servers
  networkEnabled : c.networkEnabled = c'.networkEnabled
  networkSeen : c.networkSeen = c'.networkSeen

/-- No file of another layer changes servers or network, also one that is not accepted. -/
theorem parseConfigFile_sameTopology (fs : FileSystem) (config : PolycallConfig) (path : Text)
    {layer : ConfigLayer} (hlayer : layer ≠ .project) :
    SameTopology (parseConfigFile fs config path layer).config config := by
  refine parseConfigFile_induct (P := fun c => SameTopology c config) ?_ ?_ fs path ⟨rfl, rfl, rfl⟩
  · intro c c' hc hsame
    exact ⟨hsame.servers.trans hc.servers, hsame.networkEnabled.trans hc.networkEnabled,
      hsame.networkSeen.trans hc.networkSeen⟩
  · intro c line _ hc hallowed
    cases hentry : readEntry line with
    | blank => exact hc
    | malformed => exact hc
    | server s =>
      rw [hentry] at hallowed
      exact absurd hallowed.1 hlayer
    | network start =>
      rw [hentry] at hallowed
      exact absurd hallowed hlayer
    | setting v =>
      have hwarn := sameTables_warn c layer v.key
      exact ⟨hwarn.servers.trans hc.servers, hwarn.networkEnabled.trans hc.networkEnabled,
        hwarn.networkSeen.trans hc.networkSeen⟩

/-! ## The files of a load -/

/-- The files at these paths. -/
def filesOf (fs : FileSystem) (files : List (Text × ConfigLayer)) : List File :=
  files.filterMap fun file => fs file.1

/-- A file that is there is the first one. -/
theorem filesOf_cons_some {fs : FileSystem} {path : Text} {file : File}
    (hfile : fs path = some file) (layer : ConfigLayer) (files : List (Text × ConfigLayer)) :
    filesOf fs ((path, layer) :: files) = file :: filesOf fs files := by
  simp [filesOf, hfile]

/-- Files accepted one after the other put their settings into the table one after the other. -/
theorem parseAll_values {fs : FileSystem} {c c' : PolycallConfig}
    {files : List (Text × ConfigLayer)} (h : parseAll fs c files = some c') :
    c'.values = ((filesOf fs files).flatMap File.settings).foldl (Keyed.put ConfigValue.key)
      c.values := by
  induction files generalizing c with
  | nil =>
    obtain rfl := Option.some.inj h
    rfl
  | cons file files ih =>
    obtain ⟨path, layer⟩ := file
    rw [parseAll_cons] at h
    split_ifs at h with hok
    obtain ⟨file, hfile, -⟩ := parseConfigFile_ok_iff.1 hok
    rw [ih h, parseConfigFile_values hfile hok, filesOf_cons_some hfile, List.flatMap_cons,
      List.foldl_append]

/-- Files of other layers leave servers and network as they are. -/
theorem parseAll_sameTopology {fs : FileSystem} {c c' : PolycallConfig}
    {files : List (Text × ConfigLayer)} (hlayers : ∀ file ∈ files, file.2 ≠ .project)
    (h : parseAll fs c files = some c') : SameTopology c' c := by
  induction files generalizing c with
  | nil =>
    obtain rfl := Option.some.inj h
    exact ⟨rfl, rfl, rfl⟩
  | cons file files ih =>
    obtain ⟨path, layer⟩ := file
    rw [parseAll_cons] at h
    split_ifs at h
    have hfirst := parseConfigFile_sameTopology fs c path (hlayers _ List.mem_cons_self)
    have hothers := ih (fun file hfile => hlayers file (List.mem_cons_of_mem _ hfile)) h
    exact ⟨hothers.servers.trans hfirst.servers,
      hothers.networkEnabled.trans hfirst.networkEnabled,
      hothers.networkSeen.trans hfirst.networkSeen⟩

/-- The runtime layer has one file, if it is there. -/
theorem filesOf_runtimeFiles (fs : FileSystem) :
    filesOf fs (runtimeFiles fs) = (fs polycallrc).toList := by
  unfold runtimeFiles fileExists
  cases hfile : fs polycallrc with
  | none => rfl
  | some file =>
    rw [Option.isSome_some, if_pos rfl, filesOf_cons_some hfile]
    rfl

/-- The path of a language is not cut where it is shorter than the array. -/
theorem languagePath_eq {l : Text} (hl : (lit "Polycallrc." ++ l).length < pathSize) :
    languagePath l = lit "Polycallrc." ++ l :=
  List.take_of_length_le (Nat.le_pred_of_lt hl)

/-- The layer of a language has its file, or else the legacy one. -/
theorem filesOf_languageFiles (fs : FileSystem) {language : Option Text}
    (hshort : ∀ l, language = some l → (lit "Polycallrc." ++ l).length < pathSize) :
    filesOf fs (languageFiles fs language) =
      language.toList.flatMap fun l =>
        ((fs (lit "Polycallrc." ++ l)).or (fs legacyPolycallrc)).toList := by
  cases language with
  | none => rfl
  | some l =>
    have hpath := languagePath_eq (hshort l rfl)
    unfold languageFiles
    rw [Option.toList_some, List.map_singleton, List.flatMap_singleton]
    unfold overridePath fileExists
    rw [hpath]
    cases hfile : fs (lit "Polycallrc." ++ l) with
    | some file =>
      rw [Option.isSome_some, if_pos rfl, filesOf_cons_some hfile]
      rfl
    | none =>
      rw [Option.isSome_none, if_neg (by simp), Option.none_or]
      cases hlegacy : fs legacyPolycallrc with
      | some file =>
        rw [filesOf_cons_some hlegacy]
        rfl
      | none => simp [filesOf, hlegacy]

/-! ## A load -/

/-- The settings that a parse stores are valid ones. -/
def ValidValues (c : PolycallConfig) : Prop := ∀ v ∈ c.values, v.Valid

/-- A parse keeps the stored settings valid, also one that fails. -/
theorem ValidValues.parse {c : PolycallConfig} (hc : ValidValues c) (fs : FileSystem)
    (path : Text) (layer : ConfigLayer) :
    ValidValues (parseConfigFile fs c path layer).config := by
  refine parseConfigFile_induct ?_ ?_ fs path hc
  · intro c c' hc hsame v hv
    exact hc v (hsame.values ▸ hv)
  · intro c line _ hc hallowed
    cases hentry : readEntry line with
    | blank => exact hc
    | malformed => exact hc
    | server s => exact hc
    | network start => exact hc
    | setting v =>
      rw [hentry] at hallowed
      intro w hw
      rcases Keyed.mem_put hw with rfl | hw
      · exact hallowed.1
      · exact hc w hw

/-- Files leave valid values valid. -/
theorem ValidValues.parseAll {fs : FileSystem} {c c' : PolycallConfig} (hc : ValidValues c)
    {files : List (Text × ConfigLayer)} (h : parseAll fs c files = some c') : ValidValues c' := by
  induction files generalizing c with
  | nil =>
    obtain rfl := Option.some.inj h
    exact hc
  | cons file files ih =>
    obtain ⟨path, layer⟩ := file
    rw [parseAll_cons] at h
    split_ifs at h
    exact ih (hc.parse fs path layer) h

/-- What the table has under a key is shorter than the array of a value. -/
theorem ValidValues.length_lt {c : PolycallConfig} (hc : ValidValues c) {key value : Text}
    (h : configGet c key = some value) : value.length < valueSize := by
  obtain ⟨v, hv, rfl⟩ := Option.map_eq_some_iff.1 h
  exact (hc v (Keyed.key_of_find hv).1).length_value

/-- The layers of a load after the first are not the project layer. -/
theorem layer_of_mem_plan {fs : FileSystem} {language : Option Text} {file : Text × ConfigLayer}
    (h : file ∈ runtimeFiles fs ++ languageFiles fs language) : file.2 ≠ .project := by
  rcases List.mem_append.1 h with h | h
  · unfold runtimeFiles at h
    split_ifs at h
    · rw [List.mem_singleton.1 h]
      decide
    · cases h
  · obtain ⟨l, -, rfl⟩ := List.mem_map.1 h
    show ConfigLayer.language ≠ .project
    decide

/-- The files of the plan. -/
theorem filesOf_plan (fs : FileSystem) {language : Option Text}
    (hshort : ∀ l, language = some l → (lit "Polycallrc." ++ l).length < pathSize) :
    filesOf fs (plan fs language) = (fs polycallfile).toList ++ otherFiles fs language := by
  have hproject : filesOf fs [(polycallfile, .project)] = (fs polycallfile).toList := by
    cases hfile : fs polycallfile with
    | none => simp [filesOf, hfile]
    | some file =>
      rw [filesOf_cons_some hfile]
      rfl
  unfold plan otherFiles
  rw [← hproject, ← filesOf_runtimeFiles, ← filesOf_languageFiles fs hshort, ← List.append_assoc]
  unfold filesOf
  rw [List.filterMap_append, List.filterMap_append]

/-- The files that a load accepts, one after the other, are merged. -/
theorem merged_of_parseAll {fs : FileSystem} {language : Option Text} {c : PolycallConfig}
    (hshort : ∀ l, language = some l → (lit "Polycallrc." ++ l).length < pathSize)
    (h : parseAll fs .empty (plan fs language) = some c) :
    ∃ project, fs polycallfile = some project ∧ Merged c project (otherFiles fs language) := by
  have hvalues := parseAll_values h
  rw [filesOf_plan fs hshort] at hvalues
  unfold plan at h
  rw [List.append_assoc, List.singleton_append, parseAll_cons] at h
  split_ifs at h with hok
  obtain ⟨project, hproject, -⟩ := parseConfigFile_ok_iff.1 hok
  rw [hproject, Option.toList_some, List.singleton_append] at hvalues
  -- The other files come after the project file and leave its servers and network state alone.
  have hsame := parseAll_sameTopology (fun file hfile => layer_of_mem_plan hfile) h
  obtain ⟨hservers, hseen, henabled⟩ := parseConfigFile_topology hproject hok
  refine ⟨project, hproject, ?_, fun key => ?_, hsame.servers.trans hservers,
    hsame.networkSeen.trans hseen, hsame.networkEnabled.trans henabled⟩
  · rw [hvalues]
    exact Keyed.nodup_foldl_put (t := []) List.nodup_nil _
  · unfold configGet
    rw [hvalues, Keyed.find_foldl_put]
    exact congrArg _ (Option.or_none)

/-- A load that succeeds leaves the merge of its files behind: stored keys are distinct, a key has
the value of the last line that sets it in the order of the files and of their lines, a key that no
line sets is absent, and servers and network are those of the project file. No file of another layer
changes servers or network, whether it is accepted or not. -/
theorem load_merged (fs : FileSystem) (language : Option Text) :
    ((loadHierarchy fs .empty language .empty).ok = true →
      ∃ project, fs polycallfile = some project ∧
        Merged (loadHierarchy fs .empty language .empty).config project
          (otherFiles fs language)) ∧
    ∀ config path layer, layer ≠ .project →
      SameTopology (parseConfigFile fs config path layer).config config := by
  refine ⟨fun h => ?_, fun config path layer => parseConfigFile_sameTopology fs config path⟩
  obtain ⟨-, hparse, hrequired⟩ := loadHierarchy_ok h
  have hvalid : ValidValues PolycallConfig.empty := fun v hv => nomatch hv
  -- The language is a stored value, so its path fits the array.
  have hshort : ∀ l, language = some l → (lit "Polycallrc." ++ l).length < pathSize := by
    intro l hl
    have hlen := (hvalid.parseAll hparse).length_lt (hrequired.serverType l hl)
    have hname : (lit "Polycallrc.").length = 11 := rfl
    rw [List.length_append, hname]
    unfold valueSize at hlen
    unfold pathSize
    omega
  exact merged_of_parseAll hshort hparse

/-- A project file, and the file of a language that overrides one of its settings. -/
def overriding : FileSystem := fun path =>
  if path = polycallfile then
    some ⟨lit "workspace_root=/w\nlog_directory=/l # logs\nserver node 80:8080\nnetwork start\n",
      false⟩
  else if path = lit "Polycallrc.node" then
    some ⟨lit "workspace=/n\nserver_type = node\nlog_directory=/m", false⟩
  else none

/-- The two files are loaded as they are merged. -/
theorem load_merged_overriding :
    ∃ project, overriding polycallfile = some project ∧
      Merged (loadHierarchy overriding .empty (some (lit "node")) .empty).config project
        (otherFiles overriding (some (lit "node"))) :=
  (load_merged overriding (some (lit "node"))).1 (by decide +kernel)

end LibPolyCall.Config
