import LibPolyCall.Config.ServerLine

/-!
# The two loaders of server lines

`process_config_file` of `main.c` reads the lines of a file with `sscanf` and maps the ports of each
`server` line that it can scan. `parse_config_file` of `polycall_config.c` splits the fields of the
same lines and checks them. On a file of one line that starts with `server` the two agree exactly
when the line is clean and not indented, or neither, or no server line at all
(`loadersAgree_iff`): the first loader does not look behind the second port, takes a number modulo
`2^16` and with a minus sign, and does not skip white space in front of `server`.
-/

namespace LibPolyCall.Runtime

open Scan Lines
open Config (FileSystem PolycallConfig ServerLine firstWord parseConfigFile)

/-- What `process_config_file` passes to `add_port_mapping`. -/
structure ServiceLine where
  service : Text
  hostPort : UInt16
  containerPort : UInt16
deriving DecidableEq, Repr

/-- `sscanf(line, "server %31s %hu:%hu", service, &host_port, &container_port) == 3`, with what is
stored. -/
def scanService (line : Text) : Option ServiceLine :=
  if lit "server" <+: line then
    match scanWord 31 (line.drop (lit "server").length) with
    | none => none
    | some (service, rest) =>
      match scanShort rest with
      -- The byte behind the first number is to be a colon.
      | some (hostPort, 58 :: rest) =>
        (scanShort rest).map fun container => ⟨service, hostPort, container.1⟩
      | _ => none
  else none

/-- `process_config_file`: its calls of `add_port_mapping`, or none where it returns `false`. -/
def processConfigFile (fs : FileSystem) (filename : Text) : Option (List ServiceLine) :=
  (fs filename).map fun file =>
    ((chunks 255 [] file.bytes).filter fun raw => !(file.readFails && raw.eof)).filterMap fun raw =>
      let line := before nul raw.bytes
      -- Only the first byte is looked at: white space in front hides a comment.
      if line.head? = some 35 ∨ line.head? = some newline then none else scanService line

/-- What a server line says when its numbers are cut down to 16 bits. -/
def serviceOf (l : ServerLine) : ServiceLine :=
  ⟨l.name, UInt16.ofNat l.host.value, UInt16.ofNat l.target.value⟩

/-- A line is scanned exactly when it is a server line that is not indented. -/
theorem scanService_eq_some_iff {line : Text} (hword : firstWord line = lit "server")
    {m : ServiceLine} :
    scanService line = some m ↔
      ∃ l : ServerLine, l.text = line ∧ l.indent = [] ∧ m = serviceOf l := by
  constructor
  · intro h
    unfold scanService at h
    split_ifs at h with hstarts
    obtain ⟨body, rfl⟩ := hstarts
    rw [List.drop_left] at h
    cases hname : scanWord 31 body with
    | none => simp [hname] at h
    | some word =>
      obtain ⟨name, r⟩ := word
      rw [hname] at h
      dsimp only at h
      split at h
      swap
      · cases h
      rename_i hostPort r' hhost
      obtain ⟨⟨containerPort, tail⟩, htarget, hm⟩ := Option.map_eq_some_iff.1 h
      -- The three conversions give the pieces of the line, one behind the other.
      obtain ⟨gap, hgap, hisWord, rfl⟩ := scanWord_eq_some_iff.1 hname
      obtain ⟨space, host, hspace, -, rfl, rfl⟩ := scanShort_eq_some_iff.1 hhost
      obtain ⟨pad, target, hpad, htail, rfl, rfl⟩ := scanShort_eq_some_iff.1 htarget
      have hgapne : gap ≠ [] :=
        hisWord.spaces_ne_nil fun _ hb => Config.isSpace_of_firstWord blank_nil hword hb
      exact ⟨⟨[], gap, name, space, host, pad, target, tail, blank_nil, hgap, hgapne, hisWord,
        hspace, hpad, htail⟩, rfl, rfl, hm.symm⟩
  · rintro ⟨l, rfl, hindent, rfl⟩
    -- The pieces are what the three conversions read.
    have hname := scanWord_eq_some_iff.2 ⟨l.gap, l.blank_gap, l.isWord, rfl⟩
    have hhost := scanShort_eq_some_iff.2 ⟨l.space, l.host, l.blank_space,
      fun _ => @Config.isDigit_of_head?_colon (l.pad ++ (l.target.text ++ l.tail)) _, rfl, rfl⟩
    have htarget := scanShort_eq_some_iff.2 ⟨l.pad, l.target, l.blank_pad, l.tail_head, rfl, rfl⟩
    rw [scanService, ServerLine.text, hindent, List.nil_append, if_pos (List.prefix_append _ _),
      List.drop_left, ServerLine.body, hname]
    dsimp only
    rw [hhost]
    show ((scanShort _).map _) = _
    rw [htarget]
    rfl

/-- The newline at the end of a line belongs to its tail. -/
theorem exists_text_written_iff {line : Text} (ended : Bool) {m : ServiceLine} :
    (∃ l : ServerLine, l.text = written line ended ∧ l.indent = [] ∧ m = serviceOf l) ↔
      ∃ l : ServerLine, l.text = line ∧ l.indent = [] ∧ m = serviceOf l := by
  cases ended with
  | false => exact Iff.rfl
  | true =>
    constructor
    · rintro ⟨l, hl, hindent, hm⟩
      have hl : l.text = line ++ [newline] := hl
      rw [ServerLine.text_eq_lead] at hl
      rcases List.eq_nil_or_concat l.tail with hnil | ⟨tail, c, hconcat⟩
      · -- The last byte of a number is no newline.
        rw [hnil, List.append_nil] at hl
        have hlast := congrArg List.getLast? hl
        rw [List.getLast?_append_of_ne_nil _ l.target.text_ne_nil, List.getLast?_concat] at hlast
        have hdigit := Numeral.isSpace_of_mem_text (List.mem_of_mem_getLast? hlast)
        rw [isSpace_newline] at hdigit
        cases hdigit
      · rw [List.concat_eq_append] at hconcat
        have htail : ∀ b, tail.head? = some b → isDigit b = false := fun b hb =>
          l.tail_head b (by rw [hconcat, List.head?_append, hb]; rfl)
        rw [hconcat, ← List.append_assoc, ← List.append_assoc, List.append_assoc l.lead] at hl
        refine ⟨l.withTail tail htail, ?_, hindent, hm⟩
        rw [ServerLine.text_withTail]
        exact (List.append_inj' hl rfl).1
    · rintro ⟨l, rfl, hindent, hm⟩
      have htail : ∀ b, (l.tail ++ [newline]).head? = some b → isDigit b = false := by
        intro b hb
        rw [List.head?_append] at hb
        rcases Option.or_eq_some_iff.1 hb with h | ⟨-, h⟩
        · exact l.tail_head b h
        · obtain rfl := Option.some.inj h
          decide
      refine ⟨l.withTail _ htail, ?_, hindent, hm⟩
      rw [ServerLine.text_withTail, written, if_pos rfl, ServerLine.text_eq_lead]
      simp only [List.append_assoc]

/-- A line that does not start as `server` does is not scanned. -/
theorem scanService_eq_none {line : Text} {b : UInt8} (hhead : line.head? = some b)
    (hb : b ≠ 115) : scanService line = none := by
  refine if_neg ?_
  rintro ⟨body, rfl⟩
  exact hb (Option.some.inj hhead).symm

/-- A port is the same number in 16 bits and in 32. -/
theorem toUInt32_of_isPort {n : Numeral} (h : Config.IsPort n) :
    (UInt16.ofNat n.value).toUInt32 = UInt32.ofNat n.magnitude := by
  have hle := h.le
  rw [h.value_eq, ← UInt32.toNat_inj, UInt16.toNat_toUInt32, UInt16.toNat_ofNat',
    UInt32.toNat_ofNat']
  omega

/-- The two loaders agree on a file: the first finds one mapping in it exactly when the second
accepts it into an empty configuration, and then they find the same. -/
structure LoadersAgree (fs : FileSystem) (path : Text) : Prop where
  iff : (∃ m, processConfigFile fs path = some [m]) ↔
    (parseConfigFile fs .empty path .project).ok = true
  same : ∀ m, processConfigFile fs path = some [m] →
    (parseConfigFile fs .empty path .project).ok = true →
    (parseConfigFile fs .empty path .project).config.servers =
      [⟨m.service, m.hostPort.toUInt32, m.containerPort.toUInt32⟩]

section OneLine

variable {line : Text} (hword : firstWord line = lit "server") (hnewline : newline ∉ line)
  (hnul : nul ∉ line) (hlength : line.length ≤ 254) (ended : Bool) {fs : FileSystem} {path : Text}
  (hfile : fs path = some ⟨written line ended, false⟩)

include hword hnewline hnul hlength hfile

/-- The first loader finds a mapping in a file of one server line when the line is not indented. -/
theorem processConfigFile_eq_iff {m : ServiceLine} :
    processConfigFile fs path = some [m] ↔
      ∃ l : ServerLine, l.text = line ∧ l.indent = [] ∧ m = serviceOf l := by
  have hne : line ≠ [] := by
    rintro rfl
    exact absurd hword (by decide)
  have hchunks := chunks_written 255 hnewline hne (by omega) ended
  have hbefore : before nul (written line ended) = written line ended := by
    cases ended with
    | false => exact before_eq_self hnul
    | true => exact before_eq_self (notMem_concat (by decide) hnul)
  -- The file has one line, which is scanned as a whole.
  have hcalls : processConfigFile fs path = some (scanService (written line ended)).toList := by
    rw [processConfigFile, hfile, Option.map_some]
    dsimp only
    rw [hchunks, List.filter_singleton]
    dsimp only
    rw [Bool.false_and, Bool.not_false, cond_true, List.filterMap_cons, List.filterMap_nil]
    dsimp only
    rw [hbefore]
    split_ifs with hskipped
    · -- A line that is skipped would not be scanned either.
      have hnone : scanService (written line ended) = none := by
        rcases hskipped with h | h
        · exact scanService_eq_none h (by decide)
        · exact scanService_eq_none h (by decide)
      rw [hnone]
      rfl
    · cases scanService (written line ended) <;> rfl
  have hscanned : processConfigFile fs path = some [m] ↔
      scanService (written line ended) = some m := by
    rw [hcalls]
    cases scanService (written line ended) <;> simp
  rw [hscanned, scanService_eq_some_iff ((Config.firstWord_written line ended).trans hword),
    exists_text_written_iff ended]

/-- The loaders agree on a file of one line with the first word `server` exactly when the line, if
it is a server line, is clean and not indented, or neither of the two. -/
theorem loadersAgree_iff :
    LoadersAgree fs path ↔ ∀ l : ServerLine, l.text = line → (l.indent = [] ↔ l.Clean) := by
  obtain ⟨hok, hservers⟩ := Config.accepts_iff hword hnewline hnul hlength ended hfile
  have hextracts : (∃ m, processConfigFile fs path = some [m]) ↔
      ∃ l : ServerLine, l.text = line ∧ l.indent = [] := by
    simp only [processConfigFile_eq_iff hword hnewline hnul hlength ended hfile]
    constructor
    · rintro ⟨m, l, hl, hindent, -⟩
      exact ⟨l, hl, hindent⟩
    · rintro ⟨l, hl, hindent⟩
      exact ⟨_, l, hl, hindent, rfl⟩
  constructor
  · -- The line is written in one way, so what either loader reads is `l`.
    intro h l hl
    have hiff := h.iff
    rw [hextracts, hok] at hiff
    constructor
    · intro hindent
      obtain ⟨l', hl', hclean⟩ := hiff.1 ⟨l, hl, hindent⟩
      rwa [← ServerLine.eq_of_text (hl'.trans hl.symm)]
    · intro hclean
      obtain ⟨l', hl', hindent⟩ := hiff.2 ⟨l, hl, hclean⟩
      rwa [← ServerLine.eq_of_text (hl'.trans hl.symm)]
  · intro h
    refine ⟨?_, fun m hm haccepted => ?_⟩
    · rw [hextracts, hok]
      exact exists_congr fun l => and_congr_right fun hl => h l hl
    · obtain ⟨l, hl, hindent, rfl⟩ :=
        (processConfigFile_eq_iff hword hnewline hnul hlength ended hfile).1 hm
      have hclean := (h l hl).1 hindent
      rw [hservers l hl hclean, serviceOf, toUInt32_of_isPort hclean.host,
        toUInt32_of_isPort hclean.target]
      rfl

end OneLine

/-- A file of this line. -/
def oneLine (line : Text) : FileSystem := fun _ => some ⟨written line true, false⟩

/-- The loaders agree on a clean line, whichever way its pieces are written. -/
theorem loadersAgree_iff_node :
    LoadersAgree (oneLine (lit "server node 8080:8084")) (lit "config.Polycallfile") ∧
      ∀ l : ServerLine, l.text = lit "server node 8080:8084" → (l.indent = [] ↔ l.Clean) := by
  have hextracts : processConfigFile (oneLine (lit "server node 8080:8084"))
      (lit "config.Polycallfile") = some [⟨lit "node", 8080, 8084⟩] := by
    decide +kernel
  have hagree : LoadersAgree (oneLine (lit "server node 8080:8084"))
      (lit "config.Polycallfile") := by
    refine ⟨iff_of_true ⟨_, hextracts⟩ (by decide +kernel), fun m hm _ => ?_⟩
    obtain rfl := (List.cons.inj (Option.some.inj (hextracts.symm.trans hm))).1
    decide +kernel
  exact ⟨hagree, (loadersAgree_iff (by decide) (by decide) (by decide) (by decide) true rfl).1
    hagree⟩

/-- The first loader maps port 4464 where the second refuses port 70000. -/
theorem loaders_disagree :
    ¬ LoadersAgree (oneLine (lit "server node 70000:8084")) (lit "config.Polycallfile") := by
  intro h
  have hextracts : processConfigFile (oneLine (lit "server node 70000:8084"))
      (lit "config.Polycallfile") = some [⟨lit "node", 4464, 8084⟩] := by
    decide +kernel
  have haccepted := h.iff.1 ⟨_, hextracts⟩
  exact absurd haccepted (by decide +kernel)

end LibPolyCall.Runtime
