import LibPolyCall.Config.ServerLine

/-!
# The fields of a server line

A `server` line has a word, a language and a mapping with white space between them (`ReadByField`).
The parser reads them with the conversions `%31s %63s %1s`, which cut a word of more than 31 bytes
in two: where such a word is the only one behind `server`, its first 31 bytes are the language and
the others the mapping (`Joined`). A line is read field by field exactly when this does not happen
(`readByField_iff`).
-/

namespace LibPolyCall.Config

open Scan Lines

/-- A line that the parser takes has three fields, and the server that it adds has the whole second
field as its language and the ports of the whole third one. -/
def ReadByField (config : PolycallConfig) (path : Text) (lineNumber : UInt32) (raw : Chunk) :
    Prop :=
  (parseLine config path .project lineNumber raw).ok = true →
    ∃ language mapping hostPort targetPort,
      fields (content raw.bytes) = [lit "server", language, mapping] ∧
      parsePortMapping mapping = some (hostPort, targetPort) ∧
      (parseLine config path .project lineNumber raw).config =
        { config with servers := config.servers ++ [⟨language, hostPort, targetPort⟩] }

/-- A whole line with one field behind `server`, of more than 31 bytes: the first 31 are a language
that the configuration can take, and the others are a mapping. -/
def Joined (config : PolycallConfig) (raw : Chunk) : Prop :=
  Complete raw ∧ ∃ word hostPort targetPort,
    fields (content raw.bytes) = [lit "server", word] ∧ 31 < word.length ∧
    parsePortMapping (word.drop 31) = some (hostPort, targetPort) ∧
    FreshServer config ⟨word.take 31, hostPort, targetPort⟩

/-! ## The directive -/

/-- A directive is its word, and what starts with white space. -/
theorem exists_of_isDirective {word line : Text} (h : isDirective word line = true) :
    ∃ t, line = word ++ t ∧ ∀ b, t.head? = some b → isSpace b = true := by
  obtain ⟨b, hb, rest, rfl⟩ := isDirective_iff.1 h
  refine ⟨b :: rest, by simp, fun c hc => ?_⟩
  obtain rfl := Option.some.inj hc
  exact hb

/-- The fields of a server directive. -/
theorem fields_server {t : Text} (ht : ∀ b, t.head? = some b → isSpace b = true) :
    fields (lit "server" ++ t) = lit "server" :: fields t := by
  have hall : (lit "server").all (fun b => !isSpace b) = true := by decide
  have hword : ∀ b ∈ lit "server", isSpace b = false := by simpa using hall
  exact IsField.fields_append ⟨by decide, hword, ht⟩

/-- The parser takes a server directive exactly when it is whole and makes a server that the
configuration can take. -/
theorem parseLine_server_ok_iff {config : PolycallConfig} {path : Text} {lineNumber : UInt32}
    {raw : Chunk} (hserver : isDirective (lit "server") (content raw.bytes) = true) :
    (parseLine config path .project lineNumber raw).ok = true ↔
      Complete raw ∧ ∃ s, readServer (content raw.bytes) = .server s ∧ FreshServer config s := by
  rw [parseLine_ok_iff, readEntry_server hserver]
  refine and_congr_right fun _ => ?_
  rcases readServer_cases (content raw.bytes) with h | ⟨s, h⟩
  · rw [h]
    exact iff_of_false id nofun
  · rw [h]
    constructor
    · rintro ⟨-, hfresh⟩
      exact ⟨s, rfl, hfresh⟩
    · rintro ⟨s', heq, hfresh⟩
      obtain rfl := Entry.server.inj heq
      exact ⟨rfl, hfresh⟩

/-- The server that a line adds. -/
theorem parseLine_server_config {config : PolycallConfig} {path : Text} {lineNumber : UInt32}
    {raw : Chunk} (hserver : isDirective (lit "server") (content raw.bytes) = true)
    (hok : (parseLine config path .project lineNumber raw).ok = true) {s : ConfigServer}
    (hread : readServer (content raw.bytes) = .server s) :
    (parseLine config path .project lineNumber raw).config =
      { config with servers := config.servers ++ [s] } := by
  have hraw := (parseLine_ok_iff.1 hok).1
  rw [(parseLine_follows config path .project lineNumber hraw).config_of_ok hok,
    readEntry_server hserver, hread]
  rfl

/-! ## Words and fields -/

/-- Two words of a server directive are two fields, or they are one field, cut behind its first 31
bytes. -/
theorem fields_of_scanWords {t language mapping : Text}
    (h : scanWords [31, 63, 1] t = [language, mapping]) :
    fields t = [language, mapping] ∨
      fields t = [language ++ mapping] ∧ language.length = 31 ∧ mapping ≠ [] := by
  obtain ⟨gap, space, rest, hgap, hspace, hrest, hlanguage, hmapping, rfl⟩ :=
    scanWords_eq_pair_iff.1 h
  have hends : ∀ b, rest.head? = some b → isSpace b = true := fun b hb =>
    hrest b (List.mem_of_mem_head? hb)
  rw [fields_append_of_blank hgap]
  cases space with
  | cons b space =>
    left
    have hfield : IsField language (b :: space ++ (mapping ++ rest)) :=
      hlanguage.isField fun c hc => hspace c (by simp_all)
    rw [hfield.fields_append, fields_append_of_blank hspace,
      (hmapping.isField hends).fields_append, fields_eq_nil_of_blank hrest]
  | nil =>
    right
    -- The first conversion has stopped within a word, so it has taken all that it may.
    have hlength : language.length = 31 := by
      refine hlanguage.length_le.antisymm (Nat.le_of_not_lt fun hlt => ?_)
      exact hmapping.spaces_ne_nil (hlanguage.ends hlt) rfl
    have hfield : IsField (language ++ mapping) rest := by
      refine ⟨by simp [hlanguage.ne_nil], fun b hb => ?_, hends⟩
      rcases List.mem_append.1 hb with hb | hb
      · exact hlanguage.noSpace b hb
      · exact hmapping.noSpace b hb
    refine ⟨?_, hlength, hmapping.ne_nil⟩
    rw [List.nil_append, ← List.append_assoc, hfield.fields_append, fields_eq_nil_of_blank hrest]

/-- A field that is longer than 31 bytes, and that ends with a mapping, is read as two words. -/
theorem scanWords_of_fields {t word : Text} (h : fields t = [word]) (hlong : 31 < word.length)
    {ports : UInt32 × UInt32} (hports : parsePortMapping (word.drop 31) = some ports) :
    scanWords [31, 63, 1] t = [word.take 31, word.drop 31] := by
  obtain ⟨gap, rest, hgap, hrest, hfield, rfl⟩ := exists_of_fields_eq_singleton h
  have hshort : (word.drop 31).length < 64 := (parsePortMapping_eq_some_iff_text.1 hports).1
  have htake : (word.take 31).length = 31 := by
    rw [List.length_take]
    omega
  refine scanWords_eq_pair_iff.2 ⟨gap, [], rest, hgap, blank_nil, hrest, ⟨?_, htake.le, ?_, ?_⟩,
    ⟨?_, Nat.le_of_lt_succ hshort, ?_, fun _ => hfield.ends⟩, ?_⟩
  · intro hnil
    rw [hnil] at htake
    cases htake
  · exact fun b hb => hfield.noSpace b (List.mem_of_mem_take hb)
  · exact fun hlt => absurd htake hlt.ne
  · intro hnil
    rw [List.drop_eq_nil_iff] at hnil
    omega
  · exact fun b hb => hfield.noSpace b (List.mem_of_mem_drop hb)
  · rw [List.nil_append, ← List.append_assoc (word.take 31), List.take_append_drop]

/-! ## Main result -/

/-- The parser reads a server line field by field exactly when it is not one whose only field behind
`server` it takes for a language and a mapping. -/
theorem readByField_iff (config : PolycallConfig) (path : Text) (lineNumber : UInt32) (raw : Chunk)
    (hserver : isDirective (lit "server") (content raw.bytes) = true) :
    ReadByField config path lineNumber raw ↔ ¬Joined config raw := by
  obtain ⟨t, hcontent, ht⟩ := exists_of_isDirective hserver
  have hfields : fields (content raw.bytes) = lit "server" :: fields t := by
    rw [hcontent, fields_server ht]
  constructor
  · rintro h ⟨hraw, word, hostPort, targetPort, hone, hlong, hports, hfresh⟩
    have hone' : fields t = [word] := (List.cons.inj (hfields.symm.trans hone)).2
    have hread : readServer (content raw.bytes) = .server ⟨word.take 31, hostPort, targetPort⟩ := by
      rw [hcontent]
      exact readServer_eq_server_iff_words.2 ⟨_, scanWords_of_fields hone' hlong hports, hports⟩
    obtain ⟨language, mapping, -, -, hthree, -⟩ :=
      h ((parseLine_server_ok_iff hserver).2 ⟨hraw, _, hread, hfresh⟩)
    rw [hone] at hthree
    simp at hthree
  · intro hnot hok
    obtain ⟨hraw, s, hread, hfresh⟩ := (parseLine_server_ok_iff hserver).1 hok
    have hread' := hread
    rw [hcontent] at hread'
    obtain ⟨mapping, hwords, hports⟩ := readServer_eq_server_iff_words.1 hread'
    rcases fields_of_scanWords hwords with htwo | ⟨hone, hlength, hne⟩
    · refine ⟨s.language, mapping, s.hostPort, s.targetPort, ?_, hports, ?_⟩
      · rw [hfields, htwo]
      · exact parseLine_server_config hserver hok hread
    · refine absurd ⟨hraw, s.language ++ mapping, s.hostPort, s.targetPort, ?_, ?_, ?_, ?_⟩ hnot
      · rw [hfields, hone]
      · have hpos := List.length_pos_iff.2 hne
        rw [List.length_append]
        omega
      · rw [List.drop_left' hlength]
        exact hports
      · rw [List.take_left' hlength]
        exact hfresh

/-- A line of three fields is read field by field. -/
theorem readByField_iff_c :
    ReadByField .empty (lit "Polycallfile") 1 ⟨lit "server c 80:8080\n", false⟩ := by
  refine (readByField_iff .empty (lit "Polycallfile") 1 ⟨lit "server c 80:8080\n", false⟩
    (by decide)).2 ?_
  rintro ⟨-, word, hostPort, targetPort, htwo, -⟩
  have hthree : fields (content (lit "server c 80:8080\n")) =
      [lit "server", lit "c", lit "80:8080"] := by decide +kernel
  cases hthree.symm.trans htwo

/-- A server line with a language of 31 letters, and the mapping right behind it. -/
def joinedLine : Chunk := ⟨lit "server abcdefghijklmnopqrstuvwxyzabcde80:80\n", false⟩

/-- The parser takes a line of two fields. -/
theorem joined_line_accepted :
    isDirective (lit "server") (content joinedLine.bytes) = true ∧
      parseLine .empty (lit "Polycallfile") .project 1 joinedLine =
        ⟨{ PolycallConfig.empty with
            servers := [⟨lit "abcdefghijklmnopqrstuvwxyzabcde", 80, 80⟩] }, [], true⟩ ∧
      ¬ReadByField .empty (lit "Polycallfile") 1 joinedLine := by
  have hdirective : isDirective (lit "server") (content joinedLine.bytes) = true := by decide
  have hparsed : parseLine .empty (lit "Polycallfile") .project 1 joinedLine =
      ⟨{ PolycallConfig.empty with
          servers := [⟨lit "abcdefghijklmnopqrstuvwxyzabcde", 80, 80⟩] }, [], true⟩ := by
    decide +kernel
  refine ⟨hdirective, hparsed, fun h => ?_⟩
  obtain ⟨language, mapping, -, -, hthree, -⟩ := h (by rw [hparsed])
  have htwo : (fields (content joinedLine.bytes)).length = 2 := by decide +kernel
  rw [hthree] at htwo
  cases htwo

end LibPolyCall.Config
