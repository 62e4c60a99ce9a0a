import LibPolyCall.Config.Values
import LibPolyCall.Library.Lines

/-!
# Parsing a configuration file

`parse_config_file` of `polycall_config.c`, one definition for each kind of line that it knows. A
parse changes the configuration as it goes and keeps what it has changed when a line fails, so
`Outcome` has the configuration in both cases. A file is its bytes and whether a read error ends
it; `fopen` fails on a path that the file system does not have.
-/

namespace LibPolyCall.Config

open Scan Lines

/-- What a parse leaves behind: the configuration, what it has printed to `stderr`, and what it
returns. -/
structure Outcome where
  config : PolycallConfig
  stderr : List Text
  ok : Bool
deriving DecidableEq, Repr

/-- `'#'`. -/
def hash : UInt8 := 35

/-- `'='`. -/
def equals : UInt8 := 61

/-- `line`: the string in `raw_line` up to its comment, trimmed. -/
def content (raw : Text) : Text := trim (before hash (before nul raw))

/-- `strncmp(line, word, n) == 0 && isspace(line[n])` for a word of `n` bytes. -/
def isDirective (word line : Text) : Bool :=
  word <+: line ∧ (line.drop word.length).head?.any isSpace = true

/-- A `server` line. -/
def parseServer (config : PolycallConfig) (path : Text) (layer : ConfigLayer)
    (lineNumber : UInt32) (line : Text) : Outcome :=
  if layer ≠ .project then
    ⟨config, [located path lineNumber (lit "server definitions belong in Polycallfile")], false⟩
  else
    match sscanf (lit "server") [31, 63, 1] line with
    -- Two words are stored: there was no third one.
    | [language, mapping] =>
      match addServer config path lineNumber language mapping with
      | .ok config => ⟨config, [], true⟩
      | .error complaint => ⟨config, [complaint], false⟩
    | _ =>
      ⟨config, [located path lineNumber (lit "expected 'server <language> <host>:<target>'")],
        false⟩

/-- A `network` line. -/
def parseNetwork (config : PolycallConfig) (path : Text) (layer : ConfigLayer)
    (lineNumber : UInt32) (line : Text) : Outcome :=
  let failed : Outcome :=
    ⟨config, [located path lineNumber
      (lit "expected 'network start' or 'network stop' in Polycallfile")], false⟩
  if layer ≠ .project then failed
  else
    match sscanf (lit "network") [15, 1] line with
    | [action] =>
      if action ≠ lit "start" ∧ action ≠ lit "stop" then failed
      else
        ⟨{ config with networkEnabled := action = lit "start", networkSeen := true }, [], true⟩
    | _ => failed

/-- `config->warnings++` on a key that the layer does not know. -/
def warn (config : PolycallConfig) (layer : ConfigLayer) (key : Text) : PolycallConfig :=
  if isKnownKey key layer then config else { config with warnings := config.warnings + 1 }

/-- A line with an `=`. -/
def parseSetting (config : PolycallConfig) (path : Text) (layer : ConfigLayer)
    (lineNumber : UInt32) (line : Text) : Outcome :=
  let malformed : Outcome :=
    ⟨config, [located path lineNumber (lit "malformed key=value entry")], false⟩
  if equals ∈ after equals line then malformed
  else
    let key := trim (before equals line)
    let value := trim (after equals line)
    if key = [] ∨ value = [] ∨ keySize ≤ key.length ∨ valueSize ≤ value.length then malformed
    else
      let warning :=
        if isKnownKey key layer then []
        else [located path lineNumber (lit "warning: unknown key '" ++ key ++ lit "'")]
      -- A full table is reported for every line that fails here, also for an invalid value.
      let full :=
        if maxValues ≤ config.values.length
        then [located path lineNumber (lit "too many configuration values")] else []
      match validateValue path lineNumber key value with
      | some complaint => ⟨warn config layer key, warning ++ [complaint] ++ full, false⟩
      | none =>
        match configSet (warn config layer key) key value with
        | some config => ⟨config, warning, true⟩
        | none => ⟨warn config layer key, warning ++ full, false⟩

/-- A chunk that is a whole line, as far as the parser can see: its string has a newline, or the
file is at its end. -/
def Complete (raw : Chunk) : Prop := newline ∈ before nul raw.bytes ∨ raw.eof = true

/-- Whether a chunk is a whole line can be decided. -/
instance (raw : Chunk) : Decidable (Complete raw) :=
  inferInstanceAs (Decidable (_ ∨ _))

/-- The body of the loop of `parse_config_file`. -/
def parseLine (config : PolycallConfig) (path : Text) (layer : ConfigLayer)
    (lineNumber : UInt32) (raw : Chunk) : Outcome :=
  if ¬Complete raw then ⟨config, [located path lineNumber (lit "line is too long")], false⟩
  else
    let line := content raw.bytes
    -- The words come before the `=`: a line `server = x` is a server line.
    if line = [] then ⟨config, [], true⟩
    else if isDirective (lit "server") line then parseServer config path layer lineNumber line
    else if isDirective (lit "network") line then parseNetwork config path layer lineNumber line
    else if equals ∈ line then parseSetting config path layer lineNumber line
    else ⟨config, [located path lineNumber (lit "malformed configuration syntax")], false⟩

/-- The loop of `parse_config_file`, where `lineNumber` lines have been read. -/
def parseLines (path : Text) (layer : ConfigLayer) :
    UInt32 → PolycallConfig → List Chunk → Outcome
  | _, config, [] => ⟨config, [], true⟩
  | lineNumber, config, raw :: raws =>
    let first := parseLine config path layer (lineNumber + 1) raw
    -- A line that fails ends the loop, and what the lines before it have set stays.
    if first.ok then
      let others := parseLines path layer (lineNumber + 1) first.config raws
      { others with stderr := first.stderr ++ others.stderr }
    else first

/-- A file that can be opened: the bytes that can be read of it, and whether a read error comes
after them. -/
structure File where
  bytes : Text
  readFails : Bool
deriving DecidableEq, Repr

/-- What `fgets` returns: without the last chunk where the read error cuts it off. -/
def File.chunks (file : File) : List Chunk :=
  (Lines.chunks (lineSize - 1) [] file.bytes).filter fun raw => !(file.readFails && raw.eof)

/-- The files by their paths. -/
abbrev FileSystem := Text → Option File

/-- `parse_config_file`. -/
def parseConfigFile (fs : FileSystem) (config : PolycallConfig) (path : Text)
    (layer : ConfigLayer) : Outcome :=
  match fs path with
  | none => ⟨config, [lit "Unable to open configuration file: " ++ path ++ lit "\n"], false⟩
  | some file =>
    let out := parseLines path layer 0 config file.chunks
    if out.ok ∧ file.readFails then
      { out with
        stderr := out.stderr ++
          [lit "Failed while reading configuration file: " ++ path ++ lit "\n"]
        ok := false }
    else out

end LibPolyCall.Config
