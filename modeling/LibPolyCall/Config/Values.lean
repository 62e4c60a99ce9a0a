import LibPolyCall.Library.Keyed
import LibPolyCall.Library.Scan

/-!
# The configuration table

The records of `polycall_config.c` and the functions on them, each under its own name, with the
texts that they print to `stderr`. A text is the bytes of a C string before its terminator. An
array with its count is a list, and the bound that the code checks before it appends is a number
here. `port`, the keys of two tables and `metrics_port` are checked one after the other
(`validateValue`), and a key that is set again keeps its place (`configSet`).
-/

namespace LibPolyCall.Config

open Scan

/-- `POLYCALL_CONFIG_MAX_SERVERS`. -/
def maxServers : ℕ := 32

/-- `POLYCALL_CONFIG_MAX_VALUES`. -/
def maxValues : ℕ := 128

/-- `POLYCALL_CONFIG_KEY_SIZE`. -/
def keySize : ℕ := 64

/-- `POLYCALL_CONFIG_VALUE_SIZE`. -/
def valueSize : ℕ := 256

/-- `POLYCALL_CONFIG_PATH_SIZE`. -/
def pathSize : ℕ := 512

/-- `POLYCALL_CONFIG_LINE_SIZE`. -/
def lineSize : ℕ := 1024

/-- The size of `language` in a `ConfigServer`. -/
def languageSize : ℕ := 32

/-- `ConfigLayer`. -/
inductive ConfigLayer where
  | project
  | runtime
  | language
deriving DecidableEq, Repr

/-- `ConfigServer`. -/
structure ConfigServer where
  language : Text
  hostPort : UInt32
  targetPort : UInt32
deriving DecidableEq, Repr

/-- `ConfigValue`. -/
structure ConfigValue where
  key : Text
  value : Text
deriving DecidableEq, Repr

/-- `PolycallConfig`. -/
structure PolycallConfig where
  /-- `servers[0]` to `servers[server_count - 1]`. -/
  servers : List ConfigServer
  /-- `values[0]` to `values[value_count - 1]`. -/
  values : List ConfigValue
  networkEnabled : Bool
  networkSeen : Bool
  warnings : UInt32
deriving DecidableEq, Repr

/-- `PolycallConfig config = {0}`. -/
def PolycallConfig.empty : PolycallConfig := ⟨[], [], false, false, 0⟩

/-- `PROJECT_KEYS`. -/
def projectKeys : List Text :=
  [lit "network_timeout", lit "max_connections", lit "log_directory", lit "workspace_root",
    lit "auto_discover", lit "discovery_interval", lit "tls_enabled", lit "cert_file",
    lit "key_file", lit "max_memory_per_service", lit "max_cpu_per_service", lit "enable_metrics",
    lit "metrics_port"]

/-- `RUNTIME_KEYS`. -/
def runtimeKeys : List Text :=
  [lit "port", lit "server_type", lit "workspace", lit "log_level", lit "max_connections",
    lit "supports_diagnostics", lit "supports_completion", lit "supports_formatting",
    lit "max_memory", lit "timeout", lit "allow_remote", lit "require_auth", lit "network_timeout",
    lit "log_directory", lit "workspace_root", lit "auto_discover", lit "discovery_interval",
    lit "tls_enabled", lit "cert_file", lit "key_file", lit "max_memory_per_service",
    lit "max_cpu_per_service", lit "enable_metrics", lit "metrics_port"]

/-- `BOOLEAN_KEYS`. -/
def booleanKeys : List Text :=
  [lit "auto_discover", lit "tls_enabled", lit "enable_metrics", lit "supports_diagnostics",
    lit "supports_completion", lit "supports_formatting", lit "allow_remote", lit "require_auth"]

/-- `POSITIVE_INTEGER_KEYS`. -/
def positiveIntegerKeys : List Text :=
  [lit "network_timeout", lit "max_connections", lit "discovery_interval",
    lit "max_cpu_per_service", lit "metrics_port", lit "timeout"]

/-- `is_known_key`. -/
def isKnownKey (key : Text) (layer : ConfigLayer) : Bool :=
  if layer = .project then key ∈ projectKeys else key ∈ runtimeKeys

/-- A text on `stderr` that starts with the file and the line. -/
def located (path : Text) (lineNumber : UInt32) (text : Text) : Text :=
  path ++ lit ":" ++ decimal lineNumber.toNat ++ lit ": " ++ text ++ lit "\n"

/-! ## Numbers -/

/-- `parse_positive_integer`, on a value that is not `NULL`. -/
def parsePositiveInteger (value : Text) : Option ℕ :=
  -- Only the first byte is looked at: a minus sign behind white space reaches `strtoul`.
  if value = [] ∨ value.head? = some 45 then none
  else
    let parsed := strtoul value
    if parsed.erange = true ∨ parsed.rest ≠ [] ∨ parsed.value = 0 then none
    else some parsed.value

/-- `':'`. -/
def colon : UInt8 := 58

/-- `parse_port_mapping`: the host port and the target port. -/
def parsePortMapping (value : Text) : Option (UInt32 × UInt32) :=
  if 64 ≤ value.length then none
  else if colon ∉ value ∨ colon ∈ after colon value then none
  else
    match parsePositiveInteger (before colon value), parsePositiveInteger (after colon value) with
    | some host, some target =>
      if 65535 < host ∨ 65535 < target then none
      else some (UInt32.ofNat host, UInt32.ofNat target)
    | _, _ => none

/-- A positive number of 64 bits is parsed as it was printed. -/
theorem parsePositiveInteger_decimal {n : ℕ} (hpos : 0 < n) (hn : n < 2 ^ 64) :
    parsePositiveInteger (decimal n) = some n := by
  -- The first byte is a digit and not the minus sign that is refused.
  have hminus : (decimal n).head? ≠ some 45 := fun h => by
    have hdigit := isDigit_of_mem_decimal (List.mem_of_mem_head? h)
    exact absurd hdigit (by decide)
  unfold parsePositiveInteger
  rw [if_neg (not_or.2 ⟨decimal_ne_nil n, hminus⟩)]
  dsimp only
  rw [strtoul_decimal hn]
  dsimp only
  rw [if_neg (by simp [Nat.pos_iff_ne_zero.1 hpos])]

/-- A port that is stored is between 1 and 65535. -/
def ValidPort (port : UInt32) : Prop := 1 ≤ port.toNat ∧ port.toNat ≤ 65535

/-- What is read is positive. -/
theorem parsePositiveInteger_pos {value : Text} {n : ℕ} (h : parsePositiveInteger value = some n) :
    0 < n := by
  unfold parsePositiveInteger at h
  dsimp only at h
  split_ifs at h with hsign hbad
  rw [not_or, not_or] at hbad
  have hvalue : (strtoul value).value = n := Option.some.inj h
  have hne : (strtoul value).value ≠ 0 := hbad.2.2
  omega

/-- The ports of a mapping are between 1 and 65535. -/
theorem validPort_of_parsePortMapping {value : Text} {host target : UInt32}
    (h : parsePortMapping value = some (host, target)) : ValidPort host ∧ ValidPort target := by
  unfold parsePortMapping at h
  split_ifs at h with hlong hcolon
  cases hh : parsePositiveInteger (before colon value) with
  | none => simp [hh] at h
  | some m =>
    cases ht : parsePositiveInteger (after colon value) with
    | none => simp [hh, ht] at h
    | some n =>
      simp only [hh, ht] at h
      split_ifs at h with hbig
      obtain ⟨rfl, rfl⟩ := Prod.mk.inj (Option.some.inj h)
      have hm := parsePositiveInteger_pos hh
      have hn := parsePositiveInteger_pos ht
      have hofNat : ∀ k, k ≤ 65535 → (UInt32.ofNat k).toNat = k := fun k hk => by
        rw [UInt32.toNat_ofNat']
        omega
      unfold ValidPort
      rw [hofNat m (by omega), hofNat n (by omega)]
      omega

/-- What `%u:%u` prints. -/
def mapping (host target : UInt32) : Text := decimal host.toNat ++ colon :: decimal target.toNat

/-- A decimal number has no colon. -/
theorem colon_notMem_decimal (n : ℕ) : colon ∉ decimal n := fun h =>
  absurd (isDigit_of_mem_decimal h) (by decide)

/-- A port has at most five digits. -/
theorem length_decimal_le {n : ℕ} (hn : n ≤ 65535) : (decimal n).length ≤ 5 := by
  rw [decimal, List.length_map, Nat.length_toDigits_le_iff (by decide) (by decide)]
  omega

/-- A mapping is parsed as it was printed. -/
theorem parsePortMapping_mapping {host target : UInt32} (hh : ValidPort host)
    (ht : ValidPort target) : parsePortMapping (mapping host target) = some (host, target) := by
  have hbefore : before colon (mapping host target) = decimal host.toNat :=
    before_append_cons (colon_notMem_decimal _) _
  have hafter : after colon (mapping host target) = decimal target.toNat :=
    after_append_cons (colon_notMem_decimal _) _
  have hmem : colon ∈ mapping host target :=
    List.mem_append_right _ List.mem_cons_self
  have hlen : (mapping host target).length ≤ 11 := by
    have hl := length_decimal_le hh.2
    have hr := length_decimal_le ht.2
    rw [mapping, List.length_append, List.length_cons]
    omega
  have hbig : ¬(65535 < host.toNat ∨ 65535 < target.toNat) := by
    have := hh.2
    have := ht.2
    omega
  have hsep : ¬(colon ∉ mapping host target ∨ colon ∈ after colon (mapping host target)) := by
    rw [hafter]
    exact not_or.2 ⟨not_not.2 hmem, colon_notMem_decimal _⟩
  unfold parsePortMapping
  rw [if_neg (by omega), if_neg hsep, hbefore, hafter,
    parsePositiveInteger_decimal hh.1 (by have := hh.2; omega),
    parsePositiveInteger_decimal ht.1 (by have := ht.2; omega)]
  dsimp only
  rw [if_neg hbig, UInt32.ofNat_toNat, UInt32.ofNat_toNat]

/-! ## Values -/

/-- `config_get`. -/
def configGet (config : PolycallConfig) (key : Text) : Option Text :=
  (Keyed.find ConfigValue.key key config.values).map ConfigValue.value

/-- The loop of `config_set`: the value is printed over that of the first entry with the key. -/
def overwrite (key value : Text) : List ConfigValue → Option (List ConfigValue)
  | [] => none
  | entry :: entries =>
    if entry.key = key then some ({ entry with value := value.take (valueSize - 1) } :: entries)
    else (overwrite key value entries).map (entry :: ·)

/-- `config_set`. -/
def configSet (config : PolycallConfig) (key value : Text) : Option PolycallConfig :=
  match overwrite key value config.values with
  | some values => some { config with values := values }
  | none =>
    if maxValues ≤ config.values.length then none
    else some { config with
      values := config.values ++ [⟨key.take (keySize - 1), value.take (valueSize - 1)⟩] }

/-- Where the value fits, an entry with the key is overwritten, and else none is. -/
theorem overwrite_eq {key value : Text} (hvalue : value.length < valueSize)
    (entries : List ConfigValue) :
    overwrite key value entries = if key ∈ entries.map ConfigValue.key
      then some (Keyed.put ConfigValue.key entries ⟨key, value⟩) else none := by
  have htake : value.take (valueSize - 1) = value :=
    List.take_of_length_le (Nat.le_pred_of_lt hvalue)
  induction entries with
  | nil => rfl
  | cons entry entries ih =>
    unfold overwrite Keyed.put
    by_cases hkey : entry.key = key
    · have hmem : key ∈ (entry :: entries).map ConfigValue.key := by
        rw [List.map_cons, List.mem_cons]
        exact .inl hkey.symm
      rw [if_pos hkey, if_pos hmem, if_pos hkey, htake]
      subst hkey
      rfl
    · have hmem : key ∈ (entry :: entries).map ConfigValue.key ↔
          key ∈ entries.map ConfigValue.key := by
        rw [List.map_cons, List.mem_cons, or_iff_right (Ne.symm hkey)]
      rw [if_neg hkey, if_neg hkey, ih]
      simp only [hmem]
      split_ifs <;> rfl

/-- A key that is there or has room is set, and nothing is cut. -/
theorem configSet_eq {key value : Text} (hkey : key.length < keySize)
    (hvalue : value.length < valueSize) (config : PolycallConfig) :
    configSet config key value =
      if key ∈ config.values.map ConfigValue.key ∨ config.values.length < maxValues
      then some { config with values := Keyed.put ConfigValue.key config.values ⟨key, value⟩ }
      else none := by
  have htake : key.take (keySize - 1) = key := List.take_of_length_le (Nat.le_pred_of_lt hkey)
  have htake' : value.take (valueSize - 1) = value :=
    List.take_of_length_le (Nat.le_pred_of_lt hvalue)
  unfold configSet
  rw [overwrite_eq hvalue]
  by_cases hmem : key ∈ config.values.map ConfigValue.key
  · rw [if_pos hmem]
    dsimp only
    rw [if_pos (.inl hmem)]
  · rw [if_neg hmem]
    dsimp only
    -- A new key goes to the end, which is where `put` puts it.
    by_cases hroom : config.values.length < maxValues
    · have hput := Keyed.put_of_notMem (e := ConfigValue.mk key value) hmem
      rw [if_neg (Nat.not_le.2 hroom), if_pos (.inr hroom), htake, htake', hput]
    · rw [if_pos (Nat.le_of_not_lt hroom), if_neg (not_or.2 ⟨hmem, hroom⟩)]

/-- `validate_value`: what it prints when it returns `false`. -/
def validateValue (path : Text) (lineNumber : UInt32) (key value : Text) : Option Text :=
  -- The checks follow one after the other; `metrics_port` is also among the positive integers.
  if key = lit "port" ∧ parsePortMapping value = none then
    some (located path lineNumber
      (lit "invalid port mapping '" ++ value ++ lit "' (expected 1-65535:1-65535)"))
  else if key ∈ booleanKeys ∧ value ≠ lit "true" ∧ value ≠ lit "false" then
    some (located path lineNumber (lit "'" ++ key ++ lit "' must be true or false"))
  else if key ∈ positiveIntegerKeys ∧ parsePositiveInteger value = none then
    some (located path lineNumber (lit "'" ++ key ++ lit "' must be a positive integer"))
  else if key = lit "metrics_port" ∧
      (parsePositiveInteger value).all (fun number => 65535 < number) = true then
    some (located path lineNumber (lit "metrics_port must be between 1 and 65535"))
  else none

/-- A value passes the checks on its key. -/
def ValidValue (key value : Text) : Prop := validateValue [] 0 key value = none

/-- Whether a value passes does not depend on where it stands. -/
theorem validateValue_eq_none_iff (path : Text) (lineNumber : UInt32) {key value : Text} :
    validateValue path lineNumber key value = none ↔ ValidValue key value := by
  unfold ValidValue validateValue
  split_ifs <;> simp

/-! ## Servers -/

/-- `add_server`: the configuration with the server, or what is printed. -/
def addServer (config : PolycallConfig) (path : Text) (lineNumber : UInt32)
    (language mapping : Text) : Except Text PolycallConfig :=
  if language = [] ∨ languageSize ≤ language.length then
    .error (located path lineNumber (lit "invalid server language"))
  else
    match parsePortMapping mapping with
    | none =>
      .error (located path lineNumber (lit "invalid server port mapping '" ++ mapping ++ lit "'"))
    | some (hostPort, targetPort) =>
      if config.servers.any (·.language = language) then
        .error (located path lineNumber (lit "duplicate server language '" ++ language ++ lit "'"))
      else if maxServers ≤ config.servers.length then
        .error (located path lineNumber (lit "too many server definitions"))
      else
        .ok { config with
          servers := config.servers ++
            [⟨language.take (languageSize - 1), hostPort, targetPort⟩] }

/-- A server has room in the list, under a language that is new. -/
structure FreshServer (config : PolycallConfig) (server : ConfigServer) : Prop where
  language_ne_nil : server.language ≠ []
  length_language : server.language.length < languageSize
  new : server.language ∉ config.servers.map ConfigServer.language
  room : config.servers.length < maxServers

/-- A server is added exactly when its mapping is one and it is fresh. -/
theorem addServer_eq_ok_iff {config c : PolycallConfig} (path : Text) (lineNumber : UInt32)
    {language mapping : Text} :
    addServer config path lineNumber language mapping = .ok c ↔
      ∃ hostPort targetPort, parsePortMapping mapping = some (hostPort, targetPort) ∧
        FreshServer config ⟨language, hostPort, targetPort⟩ ∧
        c = { config with servers := config.servers ++ [⟨language, hostPort, targetPort⟩] } := by
  have hany : (config.servers.any (·.language = language) = true) ↔
      language ∈ config.servers.map ConfigServer.language := by
    simp [List.any_eq_true, List.mem_map]
  unfold addServer
  -- The tests in the order of the source, each against the field of `FreshServer` that it checks.
  by_cases hlanguage : language = [] ∨ languageSize ≤ language.length
  · rw [if_pos hlanguage]
    constructor
    · intro h
      cases h
    · rintro ⟨_, _, -, hfresh, -⟩
      rcases hlanguage with hnil | hlong
      · exact absurd hnil hfresh.language_ne_nil
      · exact absurd hfresh.length_language (Nat.not_lt.2 hlong)
  · rw [if_neg hlanguage]
    rw [not_or, Nat.not_le] at hlanguage
    -- A name that fits is stored whole.
    have htake : language.take (languageSize - 1) = language :=
      List.take_of_length_le (Nat.le_pred_of_lt hlanguage.2)
    cases hmapping : parsePortMapping mapping with
    | none => simp
    | some ports =>
      obtain ⟨hostPort, targetPort⟩ := ports
      dsimp only
      by_cases hdup : language ∈ config.servers.map ConfigServer.language
      · rw [if_pos (hany.2 hdup)]
        constructor
        · intro h
          cases h
        · rintro ⟨_, _, -, hfresh, -⟩
          exact absurd hdup hfresh.new
      · rw [if_neg (mt hany.1 hdup)]
        by_cases hfull : maxServers ≤ config.servers.length
        · rw [if_pos hfull]
          constructor
          · intro h
            cases h
          · rintro ⟨_, _, -, hfresh, -⟩
            exact absurd hfresh.room (Nat.not_lt.2 hfull)
        · rw [if_neg hfull, htake]
          constructor
          · intro h
            exact ⟨hostPort, targetPort, rfl,
              ⟨hlanguage.1, hlanguage.2, hdup, Nat.lt_of_not_le hfull⟩, (Except.ok.inj h).symm⟩
          · rintro ⟨h, t, hports, -, rfl⟩
            obtain ⟨rfl, rfl⟩ := Prod.mk.inj (Option.some.inj hports)
            rfl

end LibPolyCall.Config
