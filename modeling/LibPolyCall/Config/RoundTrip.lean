import LibPolyCall.Config.Merge
import Mathlib.Data.List.Forall2

/-!
# A configuration is read back as it is shown

`show_config` prints a configuration line by line, and a parse at the project layer of what it
prints gives the configuration back (`showConfig_lossless`). The configurations are those that
parses and loads produce, from the empty one, whether they succeed or fail.

`Storable` is what makes the lines readable. Stored texts come from plain lines, so no key, value
or language has a byte that ends a line, starts a comment or, in a setting, is an `=`. A key with
its value does not look like a server line or a network line, because the line that it was read
from did not. Each printed line is then a plain line that says what was printed
(`printedLine_server`, `printedLine_setting`), and the entries are allowed one after the other.
-/

namespace LibPolyCall.Config

open Scan Lines

/-- The configurations that parses and loads produce. -/
inductive Producible : PolycallConfig → Prop
  | empty : Producible .empty
  | parse {c : PolycallConfig} (fs : FileSystem) (path : Text) (layer : ConfigLayer) :
      Producible c → Producible (parseConfigFile fs c path layer).config
  | load {c : PolycallConfig} (fs : FileSystem) (language : Option Text)
      (sources : LoadedSources) :
      Producible c → Producible (loadHierarchy fs c language sources).config

/-- What parses keep, loads keep. -/
theorem loadHierarchy_induct {P : PolycallConfig → Prop} {fs : FileSystem}
    (hparse : ∀ c path layer, P c → P (parseConfigFile fs c path layer).config)
    {c : PolycallConfig} (hc : P c) (language : Option Text) (sources : LoadedSources) :
    P (loadHierarchy fs c language sources).config := by
  -- From the one place where a file is parsed outwards to the three layers.
  have hfile : ∀ path layer s, P s.config → P (loadFile fs path layer s).config := by
    intro path layer s hs
    unfold loadFile
    dsimp only
    split_ifs
    · split <;> exact hparse _ _ _ hs
    · exact hparse _ _ _ hs
  have hthen : ∀ (s : Loading) (next : Loading → Loading), P s.config →
      (∀ s, P s.config → P (next s).config) → P (s.andThen next).config := by
    intro s next hs hnext
    unfold Loading.andThen
    split_ifs
    · exact hnext s hs
    · exact hs
  have hruntime : ∀ s, P s.config → P (loadRuntime fs s).config := by
    intro s hs
    unfold loadRuntime
    split_ifs
    · exact hfile _ _ s hs
    · exact hs
  have hlanguage : ∀ s, P s.config → P (loadLanguage fs language s).config := by
    intro s hs
    unfold loadLanguage
    cases language with
    | none => exact hs
    | some l =>
      dsimp only
      split_ifs
      · exact hfile _ _ s hs
      · exact hthen _ _ (hfile _ _ _ hs) fun _ h => h
      · exact hs
      · exact hs
  unfold loadHierarchy
  dsimp only
  split_ifs
  · exact hthen _ _ (hthen _ _ (hthen _ _ (hfile _ _ _ hc) hruntime) hlanguage) fun _ h => h
  · exact hc

/-! ## Stored texts -/

/-- A server whose line is read back. -/
structure StorableServer (s : ConfigServer) : Prop where
  language_ne_nil : s.language ≠ []
  length_language : s.language.length < languageSize
  word : ∀ b ∈ s.language, isSpace b = false
  nul_notMem : nul ∉ s.language
  hash_notMem : hash ∉ s.language
  hostPort : ValidPort s.hostPort
  targetPort : ValidPort s.targetPort

/-- A setting whose line is read back. -/
structure StorableValue (v : ConfigValue) : Prop where
  valid : v.Valid
  trimmed_key : Trimmed v.key
  trimmed_value : Trimmed v.value
  nul_notMem : nul ∉ v.key ∧ nul ∉ v.value
  hash_notMem : hash ∉ v.key ∧ hash ∉ v.value
  newline_notMem : newline ∉ v.key ∧ newline ∉ v.value
  equals_notMem : equals ∉ v.key ∧ equals ∉ v.value
  not_server : isDirective (lit "server") v.line = false
  not_network : isDirective (lit "network") v.line = false

/-- A configuration whose lines are read back. -/
structure Storable (c : PolycallConfig) : Prop where
  servers : ∀ s ∈ c.servers, StorableServer s
  values : ∀ v ∈ c.values, StorableValue v
  nodup_servers : (c.servers.map ConfigServer.language).Nodup
  nodup_values : (c.values.map ConfigValue.key).Nodup
  length_servers : c.servers.length ≤ maxServers
  length_values : c.values.length ≤ maxValues
  network : c.networkSeen = false → c.networkEnabled = false

/-- The empty configuration can be stored. -/
theorem storable_empty : Storable .empty where
  servers _ h := nomatch h
  values _ h := nomatch h
  nodup_servers := List.nodup_nil
  nodup_values := List.nodup_nil
  length_servers := Nat.zero_le _
  length_values := Nat.zero_le _
  network _ := rfl

/-- What an entry must be so that a configuration stays storable. -/
def StorableEntry : Entry → Prop
  | .server s => StorableServer s
  | .setting v => StorableValue v
  | .blank => True
  | .network _ => True
  | .malformed => True

/-- A server read from a plain line is storable. -/
theorem storableEntry_readServer {layer : ConfigLayer} {c : PolycallConfig} {line : Text}
    (hline : PlainLine line) (hallowed : (readServer line).Allowed layer c) :
    StorableEntry (readServer line) := by
  unfold readServer at hallowed ⊢
  rcases hscan : sscanf (lit "server") [31, 63, 1] line with
    _ | ⟨language, _ | ⟨mapping, _ | _⟩⟩
  · trivial
  · trivial
  · rw [hscan] at hallowed
    dsimp only at hallowed ⊢
    cases hports : parsePortMapping mapping with
    | none => trivial
    | some ports =>
      rw [hports] at hallowed
      obtain ⟨hhost, htarget⟩ := validPort_of_parsePortMapping hports
      -- The first word that `sscanf` stores is a word of the line.
      have hword : ∃ rest, scanWord 31 (line.drop 6) = some (language, rest) := by
        unfold sscanf at hscan
        split_ifs at hscan with hstarts
        unfold scanWords at hscan
        split at hscan
        · cases hscan
        · next word rest hword =>
          exact ⟨rest, (List.cons.inj hscan).1 ▸ hword⟩
      obtain ⟨rest, hword⟩ := hword
      obtain ⟨hne, -, hspace, hmem, -⟩ := scanWord_eq_some hword
      have hmem' : ∀ b ∈ language, b ∈ line := fun b hb => List.mem_of_mem_drop (hmem b hb)
      exact ⟨hne, hallowed.2.length_language, hspace, fun hb => hline.nul_notMem (hmem' _ hb),
        fun hb => hline.hash_notMem (hmem' _ hb), hhost, htarget⟩
  · trivial

/-- A setting read from a plain line that is no directive is storable. -/
theorem storableEntry_readSetting {layer : ConfigLayer} {c : PolycallConfig} {line : Text}
    (hline : PlainLine line) (hserver : ¬isDirective (lit "server") line = true)
    (hnetwork : ¬isDirective (lit "network") line = true)
    (hallowed : (readSetting line).Allowed layer c) : StorableEntry (readSetting line) := by
  unfold readSetting at hallowed ⊢
  split_ifs at hallowed ⊢ with hequals
  · trivial
  · have hkey : ∀ b ∈ trim (before equals line), b ∈ line := fun b hb =>
      mem_of_mem_before (mem_of_mem_trim hb)
    have hvalue : ∀ b ∈ trim (after equals line), b ∈ line := fun b hb =>
      mem_of_mem_after (mem_of_mem_trim hb)
    -- What its line starts with before the `=`, the line that it was read from starts with.
    have hdirective : ∀ word, equals ∉ word → ¬isDirective word line = true →
        isDirective word (ConfigValue.line
          ⟨trim (before equals line), trim (after equals line)⟩) = false := by
      intro word hword hnot
      rw [← Bool.not_eq_true]
      refine fun hshown => hnot ?_
      obtain ⟨b, hb, hstarts⟩ := isDirective_iff.1 hshown
      have hspace : equals ≠ b := by
        rintro rfl
        exact absurd hb (by decide)
      have hnone : equals ∉ word ++ [b] := notMem_concat hspace hword
      rw [ConfigValue.line, List.append_assoc] at hstarts
      have hinkey := prefix_of_prefix_append_cons hnone hstarts
      exact isDirective_iff.2 ⟨b, hb, hinkey.trans (prefix_trim_before hline.trimmed equals)⟩
    exact {
      valid := hallowed.1
      trimmed_key := trimmed_trim _
      trimmed_value := trimmed_trim _
      nul_notMem := ⟨fun h => hline.nul_notMem (hkey _ h), fun h => hline.nul_notMem (hvalue _ h)⟩
      hash_notMem :=
        ⟨fun h => hline.hash_notMem (hkey _ h), fun h => hline.hash_notMem (hvalue _ h)⟩
      newline_notMem :=
        ⟨fun h => hline.newline_notMem (hkey _ h), fun h => hline.newline_notMem (hvalue _ h)⟩
      equals_notMem :=
        ⟨fun h => notMem_before _ _ (mem_of_mem_trim h), fun h => hequals (mem_of_mem_trim h)⟩
      not_server := hdirective _ (by decide) hserver
      not_network := hdirective _ (by decide) hnetwork }

/-- A `network` line gives an entry that can be stored. -/
theorem storableEntry_readNetwork (line : Text) : StorableEntry (readNetwork line) := by
  unfold readNetwork
  split
  · split_ifs <;> trivial
  · trivial

/-- An allowed entry of a plain line is storable. -/
theorem storableEntry_readEntry {layer : ConfigLayer} {c : PolycallConfig} {line : Text}
    (hline : PlainLine line) (hallowed : (readEntry line).Allowed layer c) :
    StorableEntry (readEntry line) := by
  unfold readEntry at hallowed ⊢
  split_ifs at hallowed ⊢ with hnil hserver hnetwork hequals
  · trivial
  · exact storableEntry_readServer hline hallowed
  · exact storableEntry_readNetwork line
  · exact storableEntry_readSetting hline hserver hnetwork hallowed
  · trivial

/-- The warnings of a configuration do not matter. -/
theorem Storable.of_sameTables {c c' : PolycallConfig} (hc : Storable c) (h : SameTables c' c) :
    Storable c' where
  servers := h.servers ▸ hc.servers
  values := h.values ▸ hc.values
  nodup_servers := h.servers ▸ hc.nodup_servers
  nodup_values := h.values ▸ hc.nodup_values
  length_servers := h.servers ▸ hc.length_servers
  length_values := h.values ▸ hc.length_values
  network := h.networkSeen ▸ h.networkEnabled ▸ hc.network

/-- An allowed entry that is storable keeps a configuration storable. -/
theorem Storable.apply {c : PolycallConfig} (hc : Storable c) {layer : ConfigLayer} {e : Entry}
    (he : StorableEntry e) (hallowed : e.Allowed layer c) : Storable (e.apply layer c) := by
  cases e with
  | blank => exact hc
  | malformed => exact hc
  | network start => exact { hc with network := fun h => nomatch h }
  | server s =>
    have hfresh := hallowed.2
    have hservers : ∀ t ∈ c.servers ++ [s], StorableServer t := by
      intro t ht
      rcases List.mem_append.1 ht with ht | ht
      · exact hc.servers t ht
      · rw [List.mem_singleton.1 ht]
        exact he
    have hnodup : ((c.servers ++ [s]).map ConfigServer.language).Nodup := by
      rw [List.map_append]
      exact hc.nodup_servers.append (List.nodup_singleton _)
        (List.disjoint_singleton.2 hfresh.new)
    have hlength : (c.servers ++ [s]).length ≤ maxServers := by
      rw [List.length_append]
      exact hfresh.room
    exact { hc with servers := hservers, nodup_servers := hnodup, length_servers := hlength }
  | setting v =>
    have hwarn := hc.of_sameTables (sameTables_warn c layer v.key)
    have hvalues : ∀ w ∈ Keyed.put ConfigValue.key c.values v, StorableValue w := by
      intro w hw
      rcases Keyed.mem_put hw with rfl | hw
      · exact he
      · exact hc.values w hw
    have hnodup := Keyed.nodup_put hc.nodup_values v
    have hlength := Keyed.length_put_le hc.length_values hallowed.2
    exact { hwarn with values := hvalues, nodup_values := hnodup, length_values := hlength }

/-- Parsing a file keeps a configuration storable. -/
theorem Storable.parse {c : PolycallConfig} (hc : Storable c) (fs : FileSystem) (path : Text)
    (layer : ConfigLayer) : Storable (parseConfigFile fs c path layer).config := by
  refine parseConfigFile_induct ?_ ?_ fs path hc
  · exact fun c c' hc hsame => hc.of_sameTables hsame
  · intro c line hline hc hallowed
    exact hc.apply (storableEntry_readEntry hline hallowed) hallowed

/-- What parses and loads produce is storable. -/
theorem Producible.storable {c : PolycallConfig} (h : Producible c) : Storable c := by
  induction h with
  | empty => exact storable_empty
  | parse fs path layer _ ih => exact ih.parse fs path layer
  | load fs language sources _ ih =>
    exact loadHierarchy_induct (fun _ path layer hc => hc.parse fs path layer) ih language sources

/-! ## Printed lines -/

/-- A printed line: a plain line that fits the parser's array and says what was printed. -/
structure PrintedLine (line : Text) (e : Entry) : Prop where
  plain : PlainLine line
  length_lt : line.length < lineSize - 1
  reads : readEntry line = e

/-- A mapping has no white space. -/
theorem isSpace_of_mem_mapping {host target : UInt32} {b : UInt8} (h : b ∈ mapping host target) :
    isSpace b = false := by
  rcases List.mem_append.1 h with h | h
  · exact isSpace_of_isDigit (isDigit_of_mem_decimal h)
  · rcases List.mem_cons.1 h with rfl | h
    · decide
    · exact isSpace_of_isDigit (isDigit_of_mem_decimal h)

/-- A byte that is no digit and no colon is not in a mapping. -/
theorem notMem_mapping {host target : UInt32} {b : UInt8} (hdigit : isDigit b = false)
    (hcolon : b ≠ colon) : b ∉ mapping host target := by
  intro h
  rcases List.mem_append.1 h with h | h
  · simp [isDigit_of_mem_decimal h] at hdigit
  · rcases List.mem_cons.1 h with h | h
    · exact hcolon h
    · simp [isDigit_of_mem_decimal h] at hdigit

/-- A mapping of two ports has at most 11 bytes. -/
theorem length_mapping_le {host target : UInt32} (hh : ValidPort host) (ht : ValidPort target) :
    (mapping host target).length ≤ 11 := by
  have hl := length_decimal_le hh.2
  have hr := length_decimal_le ht.2
  rw [mapping, List.length_append, List.length_cons]
  omega

/-- A mapping is not empty. -/
theorem mapping_ne_nil (host target : UInt32) : mapping host target ≠ [] := by
  simp [mapping]

/-- The words of a printed server line are the language and the mapping. -/
theorem sscanf_line {s : ConfigServer} (hs : StorableServer s) :
    sscanf (lit "server") [31, 63, 1] s.line = [s.language, mapping s.hostPort s.targetPort] := by
  have hlanguage : s.language.length ≤ 31 := Nat.le_of_lt_succ hs.length_language
  have hmapping := length_mapping_le hs.hostPort hs.targetPort
  have hblank : ∀ b ∈ lit " ", isSpace b = true := List.all_eq_true.1 (by decide)
  have hdrop : s.line.drop (lit "server").length =
      lit " " ++ s.language ++ (lit " " ++ mapping s.hostPort s.targetPort) := by
    rw [ConfigServer.line, List.append_assoc]
    rfl
  have hstarts : lit "server" <+: s.line := by
    rw [ConfigServer.line, List.append_assoc, List.append_assoc]
    exact ⟨_, rfl⟩
  -- The language ends at the blank and the mapping at the end of the line.
  have hstop : ∀ b, (lit " " ++ mapping s.hostPort s.targetPort).head? = some b →
      isSpace b = true := by
    intro b hb
    obtain rfl := Option.some.inj hb
    decide
  have hfirst := scanWord_append hs.language_ne_nil hlanguage hs.word hblank hstop
  have hsecond : scanWord 63 (lit " " ++ mapping s.hostPort s.targetPort ++ []) =
      some (mapping s.hostPort s.targetPort, []) :=
    scanWord_append (mapping_ne_nil _ _) (by omega) (fun b hb => isSpace_of_mem_mapping hb) hblank
      fun b hb => nomatch hb
  rw [List.append_nil] at hsecond
  unfold sscanf
  rw [if_pos hstarts, hdrop]
  unfold scanWords
  rw [hfirst]
  dsimp only
  unfold scanWords
  rw [hsecond]
  dsimp only
  unfold scanWords
  rw [scanWord_nil]

/-- A storable server is printed as a line that says it. -/
theorem printedLine_server {s : ConfigServer} (hs : StorableServer s) :
    PrintedLine s.line (.server s) := by
  -- What is in none of the parts is not in the line: no terminator, no comment sign, no newline.
  have hmem : ∀ b, b ∉ lit "server " → b ∉ s.language → isDigit b = false → b ≠ colon →
      b ∉ s.line := by
    intro b hword hlanguage hdigit hcolon hb
    have hblank : b ∉ lit " " := fun h => hword (by
      rw [List.mem_singleton.1 h]
      decide)
    simp only [ConfigServer.line, List.mem_append] at hb
    rcases hb with ((hb | hb) | hb) | hb
    · exact hword hb
    · exact hlanguage hb
    · exact hblank hb
    · exact notMem_mapping hdigit hcolon hb
  have hnewline : newline ∉ s.language := fun h => by
    simpa [isSpace_newline] using hs.word _ h
  -- The line starts with a word and ends with a digit.
  have htrimmed : Trimmed s.line := by
    have hword : Trimmed (lit "server") := by decide
    have hmapping : Trimmed (mapping s.hostPort s.targetPort) :=
      trimmed_of_forall fun b hb => isSpace_of_mem_mapping hb
    have happend := hword.append hmapping (by decide) (mapping_ne_nil _ _)
      (lit " " ++ s.language ++ lit " ")
    rw [← List.append_assoc, ← List.append_assoc] at happend
    exact happend
  refine ⟨⟨htrimmed, hmem _ (by decide) hs.nul_notMem (by decide) (by decide),
    hmem _ (by decide) hs.hash_notMem (by decide) (by decide),
    hmem _ (by decide) hnewline (by decide) (by decide)⟩, ?_, ?_⟩
  · -- It fits the array for a line.
    have hlanguage := hs.length_language
    have hmapping := length_mapping_le hs.hostPort hs.targetPort
    have hserver : (lit "server ").length = 7 := rfl
    have hblank : (lit " ").length = 1 := rfl
    unfold languageSize at hlanguage
    unfold ConfigServer.line lineSize
    rw [List.length_append, List.length_append, List.length_append, hserver, hblank]
    omega
  · -- It is read as the server that it shows.
    have hdirective : isDirective (lit "server") s.line = true := by
      refine isDirective_iff.2 ⟨32, by decide, ?_⟩
      rw [ConfigServer.line, List.append_assoc, List.append_assoc]
      exact List.prefix_append (lit "server ") _
    rw [readEntry_server hdirective]
    unfold readServer
    rw [sscanf_line hs]
    dsimp only
    rw [parsePortMapping_mapping hs.hostPort hs.targetPort]

/-- A storable setting is printed as a line that says it. -/
theorem printedLine_setting {v : ConfigValue} (hv : StorableValue v) :
    PrintedLine v.line (.setting v) := by
  have hmem : ∀ b, b ≠ equals → b ∉ v.key ∧ b ∉ v.value → b ∉ v.line := by
    intro b hequals hb hline
    simp only [ConfigValue.line, List.mem_append] at hline
    rcases hline with (hline | hline) | hline
    · exact hb.1 hline
    · exact hequals (List.mem_singleton.1 hline)
    · exact hb.2 hline
  have hline : v.line = v.key ++ equals :: v.value := by
    rw [ConfigValue.line, List.append_assoc]
    rfl
  -- Key and value are trimmed, so the line is, and both are found again around the `=`.
  have htrimmed : Trimmed v.line :=
    hv.trimmed_key.append hv.trimmed_value hv.valid.key_ne_nil hv.valid.value_ne_nil _
  refine ⟨⟨htrimmed, hmem _ (by decide) hv.nul_notMem, hmem _ (by decide) hv.hash_notMem,
    hmem _ (by decide) hv.newline_notMem⟩, ?_, ?_⟩
  · have hkey := hv.valid.length_key
    have hvalue := hv.valid.length_value
    unfold keySize at hkey
    unfold valueSize at hvalue
    unfold lineSize
    rw [hline, List.length_append, List.length_cons]
    omega
  · have hbefore : before equals v.line = v.key := by
      rw [hline, before_append_cons hv.equals_notMem.1]
    have hafter : after equals v.line = v.value := by
      rw [hline, after_append_cons hv.equals_notMem.1]
    have hequals : equals ∈ v.line := by
      rw [hline]
      exact List.mem_append_right _ List.mem_cons_self
    unfold readEntry
    rw [if_neg (List.ne_nil_of_mem hequals), hv.not_server, hv.not_network, if_neg (by decide),
      if_neg (by decide), if_pos hequals]
    unfold readSetting
    rw [hafter, hbefore, if_neg hv.equals_notMem.2, trim_of_trimmed hv.trimmed_key,
      trim_of_trimmed hv.trimmed_value]

/-- The `network` line is printed as it is read. -/
theorem printedLine_network (start : Bool) : PrintedLine (networkLine start) (.network start) := by
  cases start with
  | true => exact ⟨⟨by decide, by decide, by decide, by decide⟩, by decide, by decide⟩
  | false => exact ⟨⟨by decide, by decide, by decide, by decide⟩, by decide, by decide⟩

/-! ## The file that is shown -/

/-- What the lines say that `show_config` prints on servers and network. -/
def topologyEntries (c : PolycallConfig) : List Entry :=
  c.servers.map .server ++ if c.networkSeen then [.network c.networkEnabled] else []

/-- What the lines say that `show_config` prints. -/
def shownEntries (c : PolycallConfig) : List Entry :=
  topologyEntries c ++ c.values.map .setting

/-- Each line that is printed is read as the entry that it shows. -/
theorem printedLines {c : PolycallConfig} (hc : Storable c) :
    List.Forall₂ PrintedLine (showLines c) (shownEntries c) := by
  have hservers : List.Forall₂ PrintedLine (c.servers.map ConfigServer.line)
      (c.servers.map .server) := by
    rw [List.forall₂_map_left_iff, List.forall₂_map_right_iff, List.forall₂_same]
    exact fun s hs => printedLine_server (hc.servers s hs)
  have hvalues : List.Forall₂ PrintedLine (c.values.map ConfigValue.line)
      (c.values.map .setting) := by
    rw [List.forall₂_map_left_iff, List.forall₂_map_right_iff, List.forall₂_same]
    exact fun v hv => printedLine_setting (hc.values v hv)
  have hnetwork : List.Forall₂ PrintedLine
      (if c.networkSeen then [networkLine c.networkEnabled] else [])
      (if c.networkSeen then [.network c.networkEnabled] else []) := by
    split_ifs
    · exact .cons (printedLine_network _) .nil
    · exact .nil
  exact List.rel_append (List.rel_append hservers hnetwork) hvalues

/-- Printed lines are read line by line, and say what was printed. -/
theorem entries_of_printedLines {lines : List Text} {es : List Entry}
    (h : List.Forall₂ PrintedLine lines es) :
    (∀ line ∈ lines, newline ∉ line ∧ line.length < lineSize - 1) ∧
      (∀ raw ∈ lines.map fun line => Chunk.mk (line ++ [newline]) false, Complete raw) ∧
      entries (lines.map fun line => Chunk.mk (line ++ [newline]) false) = es := by
  induction h with
  | nil => exact ⟨(fun _ h => nomatch h), (fun _ h => nomatch h), rfl⟩
  | cons hline _ ih =>
    obtain ⟨hshort, hwhole, hentries⟩ := ih
    refine ⟨?_, ?_, ?_⟩
    · rw [List.forall_mem_cons]
      exact ⟨⟨hline.plain.newline_notMem, hline.length_lt⟩, hshort⟩
    · rw [List.map_cons, List.forall_mem_cons]
      exact ⟨hline.plain.complete, hwhole⟩
    · rw [List.map_cons, entries, List.map_cons, hline.plain.content_append, hline.reads]
      exact congrArg _ hentries

/-- Entries are allowed behind others if they are in what these leave. -/
theorem allAllowed_append {layer : ConfigLayer} {c : PolycallConfig} {es fs : List Entry}
    (hes : AllAllowed layer c es) (hfs : AllAllowed layer (es.foldl (Entry.apply layer) c) fs) :
    AllAllowed layer c (es ++ fs) := by
  induction es generalizing c with
  | nil => exact hfs
  | cons e es ih => exact ⟨hes.1, ih hes.2 hfs⟩

/-- Servers under new languages are allowed one after the other while there is room. -/
theorem allAllowed_servers {c : PolycallConfig} {ss : List ConfigServer}
    (hss : ∀ s ∈ ss, StorableServer s)
    (hnodup : ((c.servers ++ ss).map ConfigServer.language).Nodup)
    (hlength : (c.servers ++ ss).length ≤ maxServers) :
    AllAllowed .project c (ss.map .server) := by
  induction ss generalizing c with
  | nil => trivial
  | cons s ss ih =>
    have hs := hss s List.mem_cons_self
    have hnew := Keyed.notMem_of_nodup_append_cons hnodup
    have hroom : c.servers.length < maxServers := by
      rw [List.length_append, List.length_cons] at hlength
      omega
    refine ⟨⟨rfl, hs.language_ne_nil, hs.length_language, hnew, hroom⟩, ?_⟩
    have hcons : (c.servers ++ [s]) ++ ss = c.servers ++ s :: ss := by
      rw [List.append_assoc, List.singleton_append]
    exact ih (c := { c with servers := c.servers ++ [s] })
      (fun t ht => hss t (List.mem_cons_of_mem _ ht)) (hcons ▸ hnodup) (hcons ▸ hlength)

/-- Settings under new keys are allowed one after the other while there is room. -/
theorem allAllowed_settings {layer : ConfigLayer} {c : PolycallConfig} {vs : List ConfigValue}
    (hvs : ∀ v ∈ vs, StorableValue v) (hnodup : ((c.values ++ vs).map ConfigValue.key).Nodup)
    (hlength : (c.values ++ vs).length ≤ maxValues) :
    AllAllowed layer c (vs.map .setting) := by
  induction vs generalizing c with
  | nil => trivial
  | cons v vs ih =>
    have hnew := Keyed.notMem_of_nodup_append_cons hnodup
    have hroom : c.values.length < maxValues := by
      rw [List.length_append, List.length_cons] at hlength
      omega
    have hcons : (Entry.apply layer c (.setting v)).values ++ vs = c.values ++ v :: vs := by
      show Keyed.put ConfigValue.key c.values v ++ vs = _
      rw [Keyed.put_of_notMem hnew, List.append_assoc, List.singleton_append]
    exact ⟨⟨(hvs v List.mem_cons_self).valid, .inr hroom⟩,
      ih (fun w hw => hvs w (List.mem_cons_of_mem _ hw)) (hcons ▸ hnodup) (hcons ▸ hlength)⟩

/-! ## Reading it back -/

/-- The entries of the topology have no settings. -/
theorem topologyEntries_setting? (c : PolycallConfig) :
    (topologyEntries c).filterMap Entry.setting? = [] := by
  unfold topologyEntries
  rw [List.filterMap_append, List.filterMap_map]
  cases c.networkSeen <;> simp [Function.comp_def, Entry.setting?]

/-- The settings shown are the values. -/
theorem shownEntries_setting? (c : PolycallConfig) :
    (shownEntries c).filterMap Entry.setting? = c.values := by
  unfold shownEntries
  rw [List.filterMap_append, topologyEntries_setting?, List.nil_append, List.filterMap_map]
  simp [Function.comp_def, Entry.setting?]

/-- The servers shown are the servers. -/
theorem shownEntries_server? (c : PolycallConfig) :
    (shownEntries c).filterMap Entry.server? = c.servers := by
  unfold shownEntries topologyEntries
  rw [List.filterMap_append, List.filterMap_append, List.filterMap_map, List.filterMap_map]
  cases c.networkSeen <;> simp [Function.comp_def, Entry.server?]

/-- The `network` line is shown if one was seen. -/
theorem shownEntries_network? (c : PolycallConfig) :
    (shownEntries c).filterMap Entry.network? =
      if c.networkSeen then [c.networkEnabled] else [] := by
  unfold shownEntries topologyEntries
  rw [List.filterMap_append, List.filterMap_append, List.filterMap_map, List.filterMap_map]
  cases c.networkSeen <;> simp [Function.comp_def, Entry.network?]

/-- The lines of a storable configuration are allowed one after the other, from the empty one. -/
theorem allAllowed_shownEntries {c : PolycallConfig} (hc : Storable c) :
    AllAllowed .project .empty (shownEntries c) := by
  have hservers : AllAllowed .project .empty (c.servers.map .server) :=
    allAllowed_servers hc.servers hc.nodup_servers hc.length_servers
  have hnetwork : ∀ c', AllAllowed .project c'
      (if c.networkSeen then [.network c.networkEnabled] else []) := by
    intro c'
    split_ifs
    · exact ⟨rfl, trivial⟩
    · trivial
  have htopology : AllAllowed .project .empty (topologyEntries c) :=
    allAllowed_append hservers (hnetwork _)
  -- Servers and network leave the table of settings empty.
  have hvalues : ((topologyEntries c).foldl (Entry.apply .project) .empty).values = [] := by
    rw [foldl_apply_values, topologyEntries_setting?]
    rfl
  refine allAllowed_append htopology (allAllowed_settings hc.values ?_ ?_)
  · rw [hvalues]
    exact hc.nodup_values
  · rw [hvalues]
    exact hc.length_values

/-- The entries of a storable configuration, from the empty one, give its tables. -/
theorem foldl_shownEntries {c : PolycallConfig} (hc : Storable c) :
    SameTables ((shownEntries c).foldl (Entry.apply .project) .empty) c where
  servers := by
    rw [foldl_apply_servers, shownEntries_server?]
    rfl
  values := by
    rw [foldl_apply_values, shownEntries_setting?]
    exact Keyed.foldl_put_of_nodup (t := []) hc.nodup_values
  networkEnabled := by
    have hnetwork := hc.network
    rw [(foldl_apply_network _ _ _).2, shownEntries_network?]
    cases hseen : c.networkSeen with
    | true => rfl
    | false => exact (hnetwork hseen).symm
  networkSeen := by
    rw [(foldl_apply_network _ _ _).1, shownEntries_network?]
    cases c.networkSeen <;> rfl

/-- A configuration that a parse or a load produced, written to a file as `show_config` prints it,
is read back from there: same servers, same settings, each in their order, and same network
state. -/
theorem showConfig_lossless {c : PolycallConfig} (hc : Producible c) {fs : FileSystem}
    {path : Text} (hfile : fs path = some ⟨showConfig c, false⟩) :
    (parseConfigFile fs .empty path .project).ok = true ∧
      SameTables (parseConfigFile fs .empty path .project).config c := by
  obtain ⟨hshort, hwhole, hentries⟩ := entries_of_printedLines (printedLines hc.storable)
  have hchunks : File.chunks ⟨showConfig c, false⟩ =
      (showLines c).map fun line => ⟨line ++ [newline], false⟩ := by
    rw [chunks_of_reads rfl]
    exact chunks_flatMap (lineSize - 1) (showLines c) hshort
  have hok : (parseConfigFile fs .empty path .project).ok = true := by
    refine parseConfigFile_ok_iff.2 ⟨_, hfile, rfl, ?_, ?_⟩
    · rw [hchunks]
      exact hwhole
    · rw [hchunks, hentries]
      exact allAllowed_shownEntries hc.storable
  refine ⟨hok, ?_⟩
  rw [parseConfigFile_config hfile hok, hchunks, hentries]
  exact foldl_shownEntries hc.storable

/-- Every path leads to what `show_config` prints of a configuration. -/
def shown (c : PolycallConfig) : FileSystem := fun _ => some ⟨showConfig c, false⟩

/-- A configuration that is loaded from two layers is shown without loss. -/
theorem showConfig_lossless_overriding :
    let c := (loadHierarchy overriding .empty (some (lit "node")) .empty).config
    (parseConfigFile (shown c) .empty polycallfile .project).ok = true ∧
      SameTables (parseConfigFile (shown c) .empty polycallfile .project).config c :=
  showConfig_lossless (.load overriding (some (lit "node")) .empty .empty) rfl

end LibPolyCall.Config
