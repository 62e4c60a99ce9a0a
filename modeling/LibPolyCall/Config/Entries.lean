import LibPolyCall.Config.Parser

/-!
# What the lines of a file say

The parser sees a line without its comment and the white space around it (`PlainLine`). A line read
on its own is an `Entry`: a server, a network switch, a setting, nothing, or none of
these. `Entry.Allowed` says when the parser accepts an entry at a layer, and `Entry.apply` what the
entry then does. `parseLine_follows` shows that the parser does just this. A file is accepted
exactly when all its lines are whole and its entries are allowed one after the other
(`parseLines_ok_iff`), and what the parser leaves behind is then their effect one after the other
(`parseLines_config`). Whatever comes of a parse, it went through allowed entries only
(`parseConfigFile_induct`).
-/

namespace LibPolyCall.Config

open Scan Lines

/-! ## Lines as the parser sees them -/

/-- The newline at the end of a line does not matter. -/
theorem content_append_newline (t : Text) : content (t ++ [newline]) = content t := by
  unfold content
  by_cases hnul : nul ∈ t
  · rw [before_append_of_mem hnul]
  · have hnul' : nul ∉ t ++ [newline] := notMem_concat (by decide) hnul
    rw [before_eq_self hnul, before_eq_self hnul']
    by_cases hhash : hash ∈ t
    · rw [before_append_of_mem hhash]
    · have hhash' : hash ∉ t ++ [newline] := notMem_concat (by decide) hhash
      rw [before_eq_self hhash, before_eq_self hhash', trim_append_newline]

/-- A line as the parser sees it: trimmed, and without the bytes that end it. -/
structure PlainLine (line : Text) : Prop where
  trimmed : Trimmed line
  nul_notMem : nul ∉ line
  hash_notMem : hash ∉ line
  newline_notMem : newline ∉ line

/-- The string in a chunk is a plain line. -/
theorem plainLine_content {raw : Text}
    (hraw : newline ∉ raw ∨ raw = before newline raw ++ [newline]) : PlainLine (content raw) where
  trimmed := trimmed_trim _
  nul_notMem h := notMem_before _ _ (mem_of_mem_before (mem_of_mem_trim h))
  hash_notMem h := notMem_before _ _ (mem_of_mem_trim h)
  newline_notMem := by
    have hmem : ∀ t : Text, newline ∈ content t → newline ∈ t := fun t h =>
      mem_of_mem_before (mem_of_mem_before (mem_of_mem_trim h))
    rcases hraw with hnone | hended
    · exact fun h => hnone (hmem raw h)
    · rw [hended, content_append_newline]
      exact fun h => notMem_before _ _ (hmem _ h)

/-- A plain line that was written with its newline is seen as it is. -/
theorem PlainLine.content_append {line : Text} (h : PlainLine line) :
    content (line ++ [newline]) = line := by
  rw [content_append_newline, content, before_eq_self h.nul_notMem, before_eq_self h.hash_notMem,
    trim_of_trimmed h.trimmed]

/-- A plain line that was written with its newline is whole. -/
theorem PlainLine.complete {line : Text} (h : PlainLine line) :
    Complete ⟨line ++ [newline], false⟩ := by
  have hnul : nul ∉ line ++ [newline] := notMem_concat (by decide) h.nul_notMem
  left
  rw [before_eq_self hnul]
  exact List.mem_append_right _ List.mem_cons_self

/-- A line is a directive when it starts with the word and a byte of white space. -/
theorem isDirective_iff {word line : Text} :
    isDirective word line = true ↔ ∃ b, isSpace b = true ∧ word ++ [b] <+: line := by
  unfold isDirective
  rw [decide_eq_true_eq]
  constructor
  · rintro ⟨⟨rest, rfl⟩, hspace⟩
    rw [List.drop_left] at hspace
    cases rest with
    | nil => cases hspace
    | cons b rest =>
      refine ⟨b, by simpa using hspace, rest, ?_⟩
      rw [List.append_assoc, List.singleton_append]
  · rintro ⟨b, hb, rest, rfl⟩
    rw [List.append_assoc]
    refine ⟨List.prefix_append _ _, ?_⟩
    rw [List.drop_left]
    simpa using hb

/-! ## Entries -/

/-- What a line says. -/
inductive Entry where
  | blank
  | server (server : ConfigServer)
  | network (start : Bool)
  | setting (value : ConfigValue)
  | malformed
deriving DecidableEq, Repr

/-- What a line that starts with `server` says. -/
def readServer (line : Text) : Entry :=
  match sscanf (lit "server") [31, 63, 1] line with
  | [language, mapping] =>
    match parsePortMapping mapping with
    | some (hostPort, targetPort) => .server ⟨language, hostPort, targetPort⟩
    | none => .malformed
  | _ => .malformed

/-- What a line that starts with `network` says. -/
def readNetwork (line : Text) : Entry :=
  match sscanf (lit "network") [15, 1] line with
  | [action] =>
    if action = lit "start" then .network true
    else if action = lit "stop" then .network false
    else .malformed
  | _ => .malformed

/-- What a line with an `=` says. -/
def readSetting (line : Text) : Entry :=
  if equals ∈ after equals line then .malformed
  else .setting ⟨trim (before equals line), trim (after equals line)⟩

/-- What a line says, without its comment and the white space around it. -/
def readEntry (line : Text) : Entry :=
  if line = [] then .blank
  else if isDirective (lit "server") line then readServer line
  else if isDirective (lit "network") line then readNetwork line
  else if equals ∈ line then readSetting line
  else .malformed

/-- What a server directive says. -/
theorem readEntry_server {line : Text} (h : isDirective (lit "server") line = true) :
    readEntry line = readServer line := by
  have hne : line ≠ [] := by
    rintro rfl
    exact absurd h (by decide)
  rw [readEntry, if_neg hne, if_pos h]

/-- A setting fits the table, and its value is one that its key takes. -/
structure ConfigValue.Valid (v : ConfigValue) : Prop where
  key_ne_nil : v.key ≠ []
  value_ne_nil : v.value ≠ []
  length_key : v.key.length < keySize
  length_value : v.value.length < valueSize
  validValue : ValidValue v.key v.value

/-- The table has the key or a free place. -/
def HasRoom (values : List ConfigValue) (key : Text) : Prop :=
  key ∈ values.map ConfigValue.key ∨ values.length < maxValues

/-- The parser accepts an entry at a layer. -/
def Entry.Allowed (layer : ConfigLayer) (config : PolycallConfig) : Entry → Prop
  | .blank => True
  | .server s => layer = .project ∧ FreshServer config s
  | .network _ => layer = .project
  | .setting v => v.Valid ∧ HasRoom config.values v.key
  | .malformed => False

/-- What an entry does to the configuration. -/
def Entry.apply (layer : ConfigLayer) (config : PolycallConfig) : Entry → PolycallConfig
  | .server s => { config with servers := config.servers ++ [s] }
  | .network start => { config with networkEnabled := start, networkSeen := true }
  | .setting v =>
    { warn config layer v.key with
      values := Keyed.put ConfigValue.key config.values v }
  | .blank => config
  | .malformed => config

/-- Two configurations that differ in their warnings only. -/
structure SameTables (c c' : PolycallConfig) : Prop where
  servers : c.servers = c'.servers
  values : c.values = c'.values
  networkEnabled : c.networkEnabled = c'.networkEnabled
  networkSeen : c.networkSeen = c'.networkSeen

/-- A configuration has its own tables. -/
theorem SameTables.refl (c : PolycallConfig) : SameTables c c := ⟨rfl, rfl, rfl, rfl⟩

/-- A warning changes no table. -/
theorem sameTables_warn (config : PolycallConfig) (layer : ConfigLayer) (key : Text) :
    SameTables (warn config layer key) config := by
  unfold warn
  split_ifs
  · exact .refl config
  · exact ⟨rfl, rfl, rfl, rfl⟩

/-! ## One line -/

/-- A parse of one line does what its entry stands for. -/
structure Follows (layer : ConfigLayer) (config : PolycallConfig) (e : Entry) (out : Outcome) :
    Prop where
  ok_iff : out.ok = true ↔ e.Allowed layer config
  config_of_ok : out.ok = true → out.config = e.apply layer config
  same_of_failed : out.ok = false → SameTables out.config config

/-- A parse that fails on an entry that is not allowed. -/
theorem Follows.failed {layer : ConfigLayer} {config : PolycallConfig} {e : Entry} {out : Outcome}
    (hok : out.ok = false) (hsame : SameTables out.config config) (he : ¬e.Allowed layer config) :
    Follows layer config e out where
  ok_iff := by simp [hok, he]
  config_of_ok h := by simp [hok] at h
  same_of_failed _ := hsame

/-- A parse that does what an allowed entry stands for. -/
theorem Follows.done {layer : ConfigLayer} {config : PolycallConfig} {e : Entry} {out : Outcome}
    (hok : out.ok = true) (hconfig : out.config = e.apply layer config)
    (he : e.Allowed layer config) : Follows layer config e out where
  ok_iff := by simp [hok, he]
  config_of_ok _ := hconfig
  same_of_failed h := by simp [hok] at h

/-- `parse_server` does what the line says. -/
theorem parseServer_follows (config : PolycallConfig) (path : Text) (layer : ConfigLayer)
    (lineNumber : UInt32) (line : Text) :
    Follows layer config (readServer line) (parseServer config path layer lineNumber line) := by
  unfold parseServer readServer
  by_cases hlayer : layer = .project
  · rw [if_neg (not_not.2 hlayer)]
    rcases sscanf (lit "server") [31, 63, 1] line with _ | ⟨language, _ | ⟨mapping, _ | _⟩⟩
    · exact .failed rfl (.refl _) id
    · exact .failed rfl (.refl _) id
    · dsimp only
      cases hadd : addServer config path lineNumber language mapping with
      | ok c =>
        obtain ⟨hostPort, targetPort, hports, hfresh, rfl⟩ :=
          (addServer_eq_ok_iff path lineNumber).1 hadd
        rw [hports]
        exact .done rfl rfl ⟨hlayer, hfresh⟩
      | error complaint =>
        cases hports : parsePortMapping mapping with
        | none => exact .failed rfl (.refl _) id
        | some ports =>
          refine .failed rfl (.refl _) fun hallowed => ?_
          have hok := (addServer_eq_ok_iff path lineNumber).2
            ⟨ports.1, ports.2, hports, hallowed.2, rfl⟩
          rw [hadd] at hok
          cases hok
    · exact .failed rfl (.refl _) id
  · rw [if_pos hlayer]
    refine .failed rfl (.refl _) fun hallowed => ?_
    split at hallowed
    · split at hallowed
      · exact hlayer hallowed.1
      · exact hallowed
    · exact hallowed

/-- `parse_network` does what the line says. -/
theorem parseNetwork_follows (config : PolycallConfig) (path : Text) (layer : ConfigLayer)
    (lineNumber : UInt32) (line : Text) :
    Follows layer config (readNetwork line) (parseNetwork config path layer lineNumber line) := by
  unfold parseNetwork readNetwork
  dsimp only
  by_cases hlayer : layer = .project
  · rw [if_neg (not_not.2 hlayer)]
    rcases sscanf (lit "network") [15, 1] line with _ | ⟨action, _ | _⟩
    · exact .failed rfl (.refl _) id
    · dsimp only
      -- The code compares twice; the entry is `network start` in one case and `stop` in the other.
      by_cases hstart : action = lit "start"
      · have hswitch : ¬(action ≠ lit "start" ∧ action ≠ lit "stop") := fun h => h.1 hstart
        rw [if_pos hstart, if_neg hswitch]
        exact .done rfl (by rw [hstart]; rfl) hlayer
      · rw [if_neg hstart]
        by_cases hstop : action = lit "stop"
        · have hswitch : ¬(action ≠ lit "start" ∧ action ≠ lit "stop") := fun h => h.2 hstop
          rw [if_pos hstop, if_neg hswitch]
          exact .done rfl (by rw [hstop]; rfl) hlayer
        · rw [if_neg hstop, if_pos ⟨hstart, hstop⟩]
          exact .failed rfl (.refl _) id
    · exact .failed rfl (.refl _) id
  · rw [if_pos hlayer]
    refine .failed rfl (.refl _) fun hallowed => ?_
    split at hallowed
    · split_ifs at hallowed
      · exact hlayer hallowed
      · exact hlayer hallowed
      · exact hallowed
    · exact hallowed

/-- `parse_setting` does what the line says. -/
theorem parseSetting_follows (config : PolycallConfig) (path : Text) (layer : ConfigLayer)
    (lineNumber : UInt32) (line : Text) :
    Follows layer config (readSetting line) (parseSetting config path layer lineNumber line) := by
  unfold parseSetting readSetting
  dsimp only
  by_cases hequals : equals ∈ after equals line
  · rw [if_pos hequals, if_pos hequals]
    exact .failed rfl (.refl _) id
  · rw [if_neg hequals, if_neg hequals]
    set key := trim (before equals line)
    set value := trim (after equals line)
    by_cases hbad : key = [] ∨ value = [] ∨ keySize ≤ key.length ∨ valueSize ≤ value.length
    · rw [if_pos hbad]
      refine .failed rfl (.refl _) fun hallowed => ?_
      have hvalid := hallowed.1
      rcases hbad with h | h | h | h
      · exact hvalid.key_ne_nil h
      · exact hvalid.value_ne_nil h
      · exact Nat.not_lt.2 h hvalid.length_key
      · exact Nat.not_lt.2 h hvalid.length_value
    · rw [if_neg hbad]
      rw [not_or, not_or, not_or, Nat.not_le, Nat.not_le] at hbad
      obtain ⟨hkey, hvalue, hkeylen, hvaluelen⟩ := hbad
      -- The warning on an unknown key stays also where the value is refused.
      cases hcheck : validateValue path lineNumber key value with
      | some complaint =>
        refine .failed rfl (sameTables_warn _ _ _) fun hallowed => ?_
        have hnone := (validateValue_eq_none_iff path lineNumber).2 hallowed.1.validValue
        rw [hcheck] at hnone
        cases hnone
      | none =>
        have hvalid : ConfigValue.Valid ⟨key, value⟩ :=
          ⟨hkey, hvalue, hkeylen, hvaluelen, (validateValue_eq_none_iff path lineNumber).1 hcheck⟩
        have hvalues := (sameTables_warn config layer key).values
        dsimp only
        rw [configSet_eq hkeylen hvaluelen, hvalues]
        by_cases hroom : key ∈ config.values.map ConfigValue.key ∨ config.values.length < maxValues
        · rw [if_pos hroom]
          exact .done rfl rfl ⟨hvalid, hroom⟩
        · rw [if_neg hroom]
          exact .failed rfl (sameTables_warn _ _ _) fun hallowed => hroom hallowed.2

/-- The parser does with a whole line what its entry stands for. -/
theorem parseLine_follows (config : PolycallConfig) (path : Text) (layer : ConfigLayer)
    (lineNumber : UInt32) {raw : Chunk} (hraw : Complete raw) :
    Follows layer config (readEntry (content raw.bytes))
      (parseLine config path layer lineNumber raw) := by
  unfold parseLine readEntry
  rw [if_neg (not_not.2 hraw)]
  dsimp only
  split_ifs
  · exact .done rfl rfl trivial
  · exact parseServer_follows config path layer lineNumber _
  · exact parseNetwork_follows config path layer lineNumber _
  · exact parseSetting_follows config path layer lineNumber _
  · exact .failed rfl (.refl _) id

/-- A line that is not read whole is refused, and changes nothing. -/
theorem parseLine_incomplete (config : PolycallConfig) (path : Text) (layer : ConfigLayer)
    (lineNumber : UInt32) {raw : Chunk} (hraw : ¬Complete raw) :
    (parseLine config path layer lineNumber raw).ok = false ∧
      (parseLine config path layer lineNumber raw).config = config := by
  unfold parseLine
  rw [if_pos hraw]
  exact ⟨rfl, rfl⟩

/-- The parser goes on after a line exactly when the line is whole and its entry is allowed. -/
theorem parseLine_ok_iff {config : PolycallConfig} {path : Text} {layer : ConfigLayer}
    {lineNumber : UInt32} {raw : Chunk} :
    (parseLine config path layer lineNumber raw).ok = true ↔
      Complete raw ∧ (readEntry (content raw.bytes)).Allowed layer config := by
  by_cases hraw : Complete raw
  · rw [(parseLine_follows config path layer lineNumber hraw).ok_iff, and_iff_right hraw]
  · simp [(parseLine_incomplete config path layer lineNumber hraw).1, hraw]

/-! ## Many lines -/

/-- Entries that are allowed one after the other. -/
def AllAllowed (layer : ConfigLayer) : PolycallConfig → List Entry → Prop
  | _, [] => True
  | config, e :: es => e.Allowed layer config ∧ AllAllowed layer (e.apply layer config) es

/-- The entries in what was read of a file. -/
def entries (raws : List Chunk) : List Entry := raws.map fun raw => readEntry (content raw.bytes)

/-- The lines are accepted exactly when they are whole and their entries are allowed one after the
other. -/
theorem parseLines_ok_iff (path : Text) (layer : ConfigLayer) (lineNumber : UInt32)
    (config : PolycallConfig) (raws : List Chunk) :
    (parseLines path layer lineNumber config raws).ok = true ↔
      (∀ raw ∈ raws, Complete raw) ∧ AllAllowed layer config (entries raws) := by
  induction raws generalizing lineNumber config with
  | nil => simp [parseLines, entries, AllAllowed]
  | cons raw raws ih =>
    unfold parseLines
    dsimp only
    by_cases hfirst : (parseLine config path layer (lineNumber + 1) raw).ok = true
    · obtain ⟨hraw, hallowed⟩ := parseLine_ok_iff.1 hfirst
      have hfollows := parseLine_follows config path layer (lineNumber + 1) hraw
      have hconfig := hfollows.config_of_ok hfirst
      rw [if_pos hfirst, ih, hconfig, List.forall_mem_cons, and_iff_right hraw]
      exact and_congr_right' (and_iff_right hallowed).symm
    · rw [if_neg hfirst]
      constructor
      · intro h
        exact absurd h hfirst
      · rintro ⟨hraws, hallowed, -⟩
        exact parseLine_ok_iff.2 ⟨hraws raw List.mem_cons_self, hallowed⟩

/-- Accepted lines have the effect of their entries one after the other. -/
theorem parseLines_config {path : Text} {layer : ConfigLayer} {lineNumber : UInt32}
    {config : PolycallConfig} {raws : List Chunk}
    (h : (parseLines path layer lineNumber config raws).ok = true) :
    (parseLines path layer lineNumber config raws).config =
      (entries raws).foldl (Entry.apply layer) config := by
  induction raws generalizing lineNumber config with
  | nil => rfl
  | cons raw raws ih =>
    unfold parseLines at h ⊢
    dsimp only at h ⊢
    by_cases hfirst : (parseLine config path layer (lineNumber + 1) raw).ok = true
    · obtain ⟨hraw, -⟩ := parseLine_ok_iff.1 hfirst
      have hfollows := parseLine_follows config path layer (lineNumber + 1) hraw
      have hconfig := hfollows.config_of_ok hfirst
      rw [if_pos hfirst] at h ⊢
      dsimp only at h ⊢
      rw [ih h, hconfig]
      rfl
    · rw [if_neg hfirst] at h
      exact absurd h hfirst

/-- What holds of a configuration, does not look at the warnings, and is kept by every entry that
is allowed holds of what a parse leaves behind, also of one that fails. -/
theorem parseLines_induct {P : PolycallConfig → Prop} {layer : ConfigLayer}
    (hsame : ∀ c c', P c → SameTables c' c → P c')
    (hstep : ∀ c line, PlainLine line → P c → (readEntry line).Allowed layer c →
      P ((readEntry line).apply layer c))
    (path : Text) (lineNumber : UInt32) {config : PolycallConfig} (hP : P config)
    {raws : List Chunk} (hraws : ∀ raw ∈ raws, PlainLine (content raw.bytes)) :
    P (parseLines path layer lineNumber config raws).config := by
  induction raws generalizing lineNumber config with
  | nil => exact hP
  | cons raw raws ih =>
    unfold parseLines
    dsimp only
    -- An allowed entry is applied, and any other line leaves the tables as they are.
    by_cases hraw : Complete raw
    · have hfollows := parseLine_follows config path layer (lineNumber + 1) hraw
      by_cases hfirst : (parseLine config path layer (lineNumber + 1) raw).ok = true
      · rw [if_pos hfirst]
        dsimp only
        refine ih _ ?_ fun raw' hraw' => hraws raw' (List.mem_cons_of_mem _ hraw')
        rw [hfollows.config_of_ok hfirst]
        exact hstep config _ (hraws raw List.mem_cons_self) hP (hfollows.ok_iff.1 hfirst)
      · rw [if_neg hfirst]
        exact hsame _ _ hP (hfollows.same_of_failed (by simpa using hfirst))
    · obtain ⟨hok, hconfig⟩ := parseLine_incomplete config path layer (lineNumber + 1) hraw
      rw [if_neg (by simp [hok]), hconfig]
      exact hP

/-! ## A whole file -/

/-- A file is accepted just if it can be read to its end, its lines are whole, and its entries are
allowed one after the other. -/
theorem parseConfigFile_ok_iff {fs : FileSystem} {config : PolycallConfig} {path : Text}
    {layer : ConfigLayer} :
    (parseConfigFile fs config path layer).ok = true ↔
      ∃ file, fs path = some file ∧ file.readFails = false ∧
        (∀ raw ∈ file.chunks, Complete raw) ∧ AllAllowed layer config (entries file.chunks) := by
  unfold parseConfigFile
  cases hfile : fs path with
  | none => simp
  | some file =>
    have hlines := parseLines_ok_iff path layer 0 config file.chunks
    dsimp only
    cases hfails : file.readFails with
    | false => simp [hfails, hlines]
    | true =>
      by_cases hok : (parseLines path layer 0 config file.chunks).ok = true
      · simp [hok, hfails]
      · simp [hok, hfails]

/-- An accepted file was read to its end, its lines are whole, and its entries are allowed one after
the other. -/
theorem accepted_of_ok {fs : FileSystem} {config : PolycallConfig} {path : Text}
    {layer : ConfigLayer} {file : File} (hfile : fs path = some file)
    (h : (parseConfigFile fs config path layer).ok = true) :
    file.readFails = false ∧ (∀ raw ∈ file.chunks, Complete raw) ∧
      AllAllowed layer config (entries file.chunks) := by
  obtain ⟨file', hfile', haccepted⟩ := parseConfigFile_ok_iff.1 h
  obtain rfl : file' = file := Option.some.inj (hfile'.symm.trans hfile)
  exact haccepted

/-- What an accepted file does to a configuration: its entries are applied in order. -/
theorem parseConfigFile_config {fs : FileSystem} {config : PolycallConfig} {path : Text}
    {layer : ConfigLayer} {file : File} (hfile : fs path = some file)
    (h : (parseConfigFile fs config path layer).ok = true) :
    (parseConfigFile fs config path layer).config =
      (entries file.chunks).foldl (Entry.apply layer) config := by
  obtain ⟨hreads, hwhole, hallowed⟩ := accepted_of_ok hfile h
  have hlines : (parseLines path layer 0 config file.chunks).ok = true :=
    (parseLines_ok_iff _ _ _ _ _).2 ⟨hwhole, hallowed⟩
  unfold parseConfigFile
  rw [hfile]
  dsimp only
  rw [if_neg (by simp [hreads])]
  exact parseLines_config hlines

/-- What holds of a configuration, does not look at the warnings, and is kept by every entry that
is allowed holds of what a parse of a file leaves behind. -/
theorem parseConfigFile_induct {P : PolycallConfig → Prop} {layer : ConfigLayer}
    (hsame : ∀ c c', P c → SameTables c' c → P c')
    (hstep : ∀ c line, PlainLine line → P c → (readEntry line).Allowed layer c →
      P ((readEntry line).apply layer c))
    (fs : FileSystem) (path : Text) {config : PolycallConfig} (hP : P config) :
    P (parseConfigFile fs config path layer).config := by
  unfold parseConfigFile
  cases fs path with
  | none => exact hP
  | some file =>
    have hplain : ∀ raw ∈ file.chunks, PlainLine (content raw.bytes) := fun raw hraw =>
      plainLine_content (shape_of_mem_chunks _ (by simp) (List.mem_of_mem_filter hraw))
    have hlines := parseLines_induct hsame hstep path 0 hP hplain
    dsimp only
    split_ifs
    · exact hlines
    · exact hlines

end LibPolyCall.Config
