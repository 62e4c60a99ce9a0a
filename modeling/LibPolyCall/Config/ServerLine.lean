import LibPolyCall.Config.Entries
import LibPolyCall.Config.PortMapping

/-!
# Server lines

How a `server` line is written, piece by piece (`ServerLine`), and which of these lines
`parse_config_file` takes (`ServerLine.Clean`). A line is written in one way only
(`ServerLine.eq_of_text`), and the parser accepts it into an empty configuration exactly when it is
written, and is clean (`accepts_iff`).
-/

namespace LibPolyCall.Config

open Scan Lines

/-- A number that a port may be: without a minus sign, and between 1 and 65535. -/
structure IsPort (n : Numeral) : Prop where
  sign_ne : n.sign ≠ .minus
  pos : 1 ≤ n.magnitude
  le : n.magnitude ≤ 65535

/-- The value of a port is its magnitude. -/
theorem IsPort.value_eq {n : Numeral} (h : IsPort n) : n.value = n.magnitude := by
  have hle := h.le
  exact Numeral.value_eq_magnitude h.sign_ne (by omega)

/-- A number without white space in front is taken as a port exactly when it is one. -/
theorem positiveNumber_nil_iff {n : Numeral} :
    PositiveNumber [] n ∧ n.value ≤ 65535 ↔ IsPort n := by
  constructor
  · rintro ⟨hnumber, hle⟩
    have hsign : n.sign ≠ .minus := fun h => hnumber.minus h rfl
    have hvalue := Numeral.value_eq_magnitude hsign hnumber.magnitude_lt
    rw [hvalue] at hle
    exact ⟨hsign, hvalue ▸ hnumber.value_pos, hle⟩
  · intro h
    have hpos := h.pos
    have hle := h.le
    rw [h.value_eq]
    refine ⟨⟨blank_nil, fun hminus => absurd hminus h.sign_ne, by omega, ?_⟩, hle⟩
    rw [h.value_eq]
    exact hpos

/-! ## The words of the parser -/

/-- A mapping without white space is parsed exactly when it is two ports with a colon between them,
in at most 63 bytes. -/
theorem parsePortMapping_eq_some_iff {value : Text} (hspace : ∀ b ∈ value, isSpace b = false)
    {hostPort targetPort : UInt32} :
    parsePortMapping value = some (hostPort, targetPort) ↔
      ∃ host target : Numeral, IsPort host ∧ IsPort target ∧
        value = host.text ++ colon :: target.text ∧ value.length ≤ 63 ∧
        hostPort = UInt32.ofNat host.magnitude ∧ targetPort = UInt32.ofNat target.magnitude := by
  rw [parsePortMapping_eq_some_iff_text]
  constructor
  · rintro ⟨hlength, before, after, host, target, hnumber, hnumber', rfl, hhost, htarget, rfl, rfl⟩
    have hnone : ∀ spaces : Text, Blank spaces →
        (∀ b ∈ spaces, b ∈ before ++ host.text ++ colon :: (after ++ target.text)) →
        spaces = [] := fun spaces hblank hmem =>
      List.eq_nil_iff_forall_not_mem.2 fun b hb => by
        have hno := hspace b (hmem b hb)
        rw [hblank b hb] at hno
        cases hno
    obtain rfl := hnone before hnumber.blank fun b hb => by simp [hb]
    obtain rfl := hnone after hnumber'.blank fun b hb => by simp [hb]
    have hport := positiveNumber_nil_iff.1 ⟨hnumber, hhost⟩
    have hport' := positiveNumber_nil_iff.1 ⟨hnumber', htarget⟩
    refine ⟨host, target, hport, hport', rfl, Nat.le_of_lt_succ hlength, ?_, ?_⟩
    · rw [hport.value_eq]
    · rw [hport'.value_eq]
  · rintro ⟨host, target, hport, hport', rfl, hlength, rfl, rfl⟩
    obtain ⟨hnumber, hle⟩ := positiveNumber_nil_iff.2 hport
    obtain ⟨hnumber', hle'⟩ := positiveNumber_nil_iff.2 hport'
    refine ⟨Nat.lt_succ_of_le hlength, [], [], host, target, hnumber, hnumber', rfl, hle, hle', ?_,
      ?_⟩
    · rw [hport.value_eq]
    · rw [hport'.value_eq]

/-- The parser finds two words exactly when there are two, with white space behind them. -/
theorem scanWords_eq_pair_iff {t name mapping : Text} :
    scanWords [31, 63, 1] t = [name, mapping] ↔
      ∃ gap space rest, Blank gap ∧ Blank space ∧ Blank rest ∧
        IsWord 31 name (space ++ (mapping ++ rest)) ∧ IsWord 63 mapping rest ∧
        t = gap ++ (name ++ (space ++ (mapping ++ rest))) := by
  constructor
  · intro h
    rw [scanWords] at h
    cases hfirst : scanWord 31 t with
    | none => simp [hfirst] at h
    | some first =>
      obtain ⟨word, r⟩ := first
      simp only [hfirst, scanWords] at h
      cases hsecond : scanWord 63 r with
      | none => simp [hsecond] at h
      | some second =>
        obtain ⟨word', r'⟩ := second
        simp only [hsecond] at h
        cases hthird : scanWord 1 r' with
        | some third => simp [hthird] at h
        | none =>
          rw [hthird, List.cons.injEq, List.cons.injEq] at h
          obtain ⟨rfl, rfl, -⟩ := h
          obtain ⟨gap, hgap, hname, rfl⟩ := scanWord_eq_some_iff.1 hfirst
          obtain ⟨space, hspace, hmapping, rfl⟩ := scanWord_eq_some_iff.1 hsecond
          exact ⟨gap, space, r', hgap, hspace, (scanWord_eq_none_iff (by decide)).1 hthird,
            hname, hmapping, rfl⟩
  · rintro ⟨gap, space, rest, hgap, hspace, hrest, hname, hmapping, rfl⟩
    have hfirst := scanWord_eq_some_iff.2 ⟨gap, hgap, hname, rfl⟩
    have hsecond := scanWord_eq_some_iff.2 ⟨space, hspace, hmapping, rfl⟩
    have hthird : scanWord 1 rest = none := (scanWord_eq_none_iff (by decide)).2 hrest
    simp only [scanWords, hfirst, hsecond, hthird]

/-! ## Server lines -/

/-- White space in front of the word `server` ends there. -/
theorem isSpan_server {spaces : Text} (hspaces : Blank spaces) (rest : Text) :
    IsSpan isSpace spaces (lit "server" ++ rest) where
  all := hspaces
  ends b hb := by
    obtain rfl := Option.some.inj hb
    decide

/-- A colon is no digit. -/
theorem isDigit_of_head?_colon {rest : Text} {b : UInt8} (hb : (colon :: rest).head? = some b) :
    isDigit b = false := by
  obtain rfl := Option.some.inj hb
  decide

/-- A server line in its pieces: white space, `server`, white space, a name, white space, a number,
a colon, white space, a number, and anything that does not go on with a digit. -/
@[ext]
structure ServerLine where
  indent : Text
  gap : Text
  name : Text
  space : Text
  host : Numeral
  pad : Text
  target : Numeral
  tail : Text
  blank_indent : Blank indent
  blank_gap : Blank gap
  gap_ne_nil : gap ≠ []
  /-- The name ends at white space, or it has 31 bytes. -/
  isWord : IsWord 31 name (space ++ (host.text ++ colon :: (pad ++ (target.text ++ tail))))
  blank_space : Blank space
  blank_pad : Blank pad
  tail_head : ∀ b, tail.head? = some b → isDigit b = false

namespace ServerLine

/-- The line behind `server`. -/
def body (l : ServerLine) : Text :=
  l.gap ++ (l.name ++ (l.space ++ (l.host.text ++ colon :: (l.pad ++ (l.target.text ++ l.tail)))))

/-- The line. -/
def text (l : ServerLine) : Text := l.indent ++ (lit "server" ++ l.body)

/-- The server that the line defines. -/
def server (l : ServerLine) : ConfigServer :=
  ⟨l.name, UInt32.ofNat l.host.magnitude, UInt32.ofNat l.target.magnitude⟩

/-- The parser takes the line: no comment starts in the name, there is no white space behind the
colon, the numbers are ports, the mapping fits its array, and only a comment follows. -/
structure Clean (l : ServerLine) : Prop where
  name : hash ∉ l.name
  pad : l.pad = []
  host : IsPort l.host
  target : IsPort l.target
  length : (l.host.text ++ colon :: l.target.text).length ≤ 63
  tail : Blank (before hash l.tail)

/-- The line up to its second number. -/
def lead (l : ServerLine) : Text :=
  l.indent ++ (lit "server" ++ (l.gap ++ (l.name ++ (l.space ++ (l.host.text ++ colon :: l.pad)))))

/-- A line is what comes before its second number, this number, and the tail. -/
theorem text_eq_lead (l : ServerLine) : l.text = l.lead ++ (l.target.text ++ l.tail) := by
  rw [text, body, lead]
  simp only [List.append_assoc, List.cons_append]

/-- The line with another tail. -/
def withTail (l : ServerLine) (tail : Text)
    (htail : ∀ b, tail.head? = some b → isDigit b = false) : ServerLine :=
  { l with
    tail := tail
    isWord := l.isWord.numeral _
    tail_head := htail }

/-- Another tail changes nothing before it. -/
theorem text_withTail (l : ServerLine) (tail : Text)
    (htail : ∀ b, tail.head? = some b → isDigit b = false) :
    (l.withTail tail htail).text = l.lead ++ (l.target.text ++ tail) :=
  text_eq_lead _

/-- A line is written in one way. -/
theorem eq_of_text {l l' : ServerLine} (h : l.text = l'.text) : l = l' := by
  obtain ⟨hindent, h⟩ := (isSpan_server l.blank_indent _).unique
    (isSpan_server l'.blank_indent _) h
  obtain ⟨hgap, h⟩ := (l.isWord.isSpan l.blank_gap).unique (l'.isWord.isSpan l'.blank_gap)
    (List.append_cancel_left h)
  obtain ⟨hname, h⟩ := l.isWord.unique l'.isWord h
  obtain ⟨hspace, h⟩ := (Numeral.isSpan l.blank_space).unique (Numeral.isSpan l'.blank_space) h
  obtain ⟨hhost, h⟩ := Numeral.unique (fun _ => isDigit_of_head?_colon)
    (fun _ => isDigit_of_head?_colon) h
  obtain ⟨hpad, h⟩ := (Numeral.isSpan l.blank_pad).unique (Numeral.isSpan l'.blank_pad)
    (List.cons.inj h).2
  obtain ⟨htarget, htail⟩ := Numeral.unique l.tail_head l'.tail_head h
  exact ServerLine.ext hindent hgap hname hspace hhost hpad htarget htail

end ServerLine

/-! ## What the parser makes of a server line -/

/-- The first word of a line. -/
def firstWord (line : Text) : Text := (line.dropWhile isSpace).takeWhile fun b => !isSpace b

/-- A line is its white space, its first word, and what starts with white space or is nothing. -/
theorem exists_eq_of_firstWord (line : Text) : ∃ indent rest, Blank indent ∧
    (∀ b, rest.head? = some b → isSpace b = true) ∧ line = indent ++ (firstWord line ++ rest) := by
  refine ⟨line.takeWhile isSpace, (line.dropWhile isSpace).dropWhile fun b => !isSpace b,
    fun b hb => List.mem_takeWhile_imp hb, fun b hb => ?_, ?_⟩
  · simpa using (isSpan_takeWhile _ _).ends b hb
  · rw [firstWord, List.takeWhile_append_dropWhile, List.takeWhile_append_dropWhile]

/-- White space follows the first word of a line. -/
theorem isSpace_of_firstWord {indent rest : Text} (hindent : Blank indent)
    (hword : firstWord (indent ++ (lit "server" ++ rest)) = lit "server") {b : UInt8}
    (hb : rest.head? = some b) : isSpace b = true := by
  obtain ⟨indent', rest', hindent', hrest', heq⟩ :=
    exists_eq_of_firstWord (indent ++ (lit "server" ++ rest))
  rw [hword] at heq
  obtain ⟨-, hserver⟩ := (isSpan_server hindent rest).unique (isSpan_server hindent' rest') heq
  rw [List.append_cancel_left hserver] at hb
  exact hrest' b hb

/-- The newline at the end of a line does not matter for its first word. -/
theorem firstWord_written (line : Text) (ended : Bool) :
    firstWord (written line ended) = firstWord line := by
  cases ended with
  | false => rfl
  | true =>
    show firstWord (line ++ [newline]) = firstWord line
    rw [firstWord, firstWord, List.dropWhile_append]
    split_ifs with hblank
    · rw [List.isEmpty_iff] at hblank
      rw [hblank]
      rfl
    · rw [List.takeWhile_append]
      split_ifs with hall
      · have hnone : ([newline].takeWhile fun b => !isSpace b) = [] := rfl
        rw [hnone, List.append_nil]
        exact ((List.takeWhile_prefix _).eq_of_length hall).symm
      · rfl

/-- The two words that make a server of a directive. -/
theorem readServer_eq_server_iff_words {t : Text} {s : ConfigServer} :
    readServer (lit "server" ++ t) = .server s ↔
      ∃ mapping, scanWords [31, 63, 1] t = [s.language, mapping] ∧
        parsePortMapping mapping = some (s.hostPort, s.targetPort) := by
  unfold readServer sscanf
  rw [if_pos (List.prefix_append _ _), List.drop_left]
  constructor
  · intro h
    split at h
    · rename_i language mapping hwords
      split at h
      · rename_i hostPort targetPort hports
        obtain rfl := Entry.server.inj h
        exact ⟨mapping, hwords, hports⟩
      · cases h
    · cases h
  · rintro ⟨mapping, hwords, hports⟩
    simp only [hwords, hports]

/-- The words of a server line as the parser reads them, behind `server`. -/
theorem readServer_eq_server_iff {t : Text} {s : ConfigServer} :
    readServer (lit "server" ++ t) = .server s ↔
      ∃ gap name space rest, ∃ host target : Numeral, Blank gap ∧ Blank space ∧ Blank rest ∧
        IsPort host ∧ IsPort target ∧
        IsWord 31 name (space ++ (host.text ++ colon :: (target.text ++ rest))) ∧
        (host.text ++ colon :: target.text).length ≤ 63 ∧
        t = gap ++ (name ++ (space ++ (host.text ++ colon :: (target.text ++ rest)))) ∧
        s = ⟨name, UInt32.ofNat host.magnitude, UInt32.ofNat target.magnitude⟩ := by
  -- target.text, :: A mapping is one word.
  have hmappingSpace : ∀ host target : Numeral, ∀ b ∈ host.text ++ colon :: target.text,
      isSpace b = false := by
    intro host target b hb
    rcases List.mem_append.1 hb with hb | hb
    · exact Numeral.isSpace_of_mem_text hb
    · rcases List.mem_cons.1 hb with rfl | hb
      · decide
      · exact Numeral.isSpace_of_mem_text hb
  rw [readServer_eq_server_iff_words]
  constructor
  · rintro ⟨mapping, hwords, hports⟩
    -- The words that `sscanf` stores, and the numbers in the second one.
    obtain ⟨gap, space, rest, hgap, hspace, hrest, hname, hmapping, rfl⟩ :=
      scanWords_eq_pair_iff.1 hwords
    obtain ⟨host, target, hhost, htarget, rfl, hlength, hhostPort, htargetPort⟩ :=
      (parsePortMapping_eq_some_iff hmapping.noSpace).1 hports
    rw [List.append_assoc, List.cons_append] at hname ⊢
    refine ⟨gap, s.language, space, rest, host, target, hgap, hspace, hrest, hhost, htarget, hname,
      hlength, rfl, ?_⟩
    rw [← hhostPort, ← htargetPort]
  · rintro ⟨gap, name, space, rest, host, target, hgap, hspace, hrest, hhost, htarget, hname,
      hlength, rfl, rfl⟩
    have hmapping : IsWord 63 (host.text ++ colon :: target.text) rest :=
      ⟨by simp, hlength, hmappingSpace host target,
        fun _ b hb => hrest b (List.mem_of_mem_head? hb)⟩
    have hports := (parsePortMapping_eq_some_iff hmapping.noSpace).2
      ⟨host, target, hhost, htarget, rfl, hlength, rfl, rfl⟩
    have hassoc : host.text ++ colon :: (target.text ++ rest) =
        host.text ++ colon :: target.text ++ rest := by
      rw [List.append_assoc, List.cons_append]
    rw [hassoc] at hname ⊢
    exact ⟨_, scanWords_eq_pair_iff.2 ⟨gap, space, rest, hgap, hspace, hrest, hname, hmapping, rfl⟩,
      hports⟩

/-- The word `server` has no comment sign. -/
theorem hash_notMem_server : hash ∉ lit "server" := by decide

/-- A numeral has no comment sign. -/
theorem hash_notMem_numeral (n : Numeral) : hash ∉ n.text := fun h =>
  absurd (Numeral.mem_text h) (by decide)

/-- What the parser sees of a line with the first word `server` starts with this word. The line
goes on with white space and a comment. -/
theorem exists_content {line : Text} (hword : firstWord line = lit "server") (hnul : nul ∉ line) :
    ∃ indent t v rest, Blank indent ∧ Blank v ∧ (∀ b, t.head? = some b → isSpace b = true) ∧
      hash ∉ t ∧ (∀ b, rest.head? = some b → b = hash) ∧
      line = indent ++ (lit "server" ++ (t ++ (v ++ rest))) ∧
      content line = lit "server" ++ t := by
  -- The line up to its comment, and what is trimmed off it there.
  obtain ⟨indent, r, hindent, hr, hline⟩ := exists_eq_of_firstWord line
  rw [hword] at hline
  obtain ⟨rest, hrest, hhash⟩ := exists_eq_before_append hash r
  set s := before hash r with hs
  have hsplit : s.rdropWhile isSpace ++ s.rtakeWhile isSpace = s :=
    List.rdropWhile_append_rtakeWhile ..
  have hpre : s.rdropWhile isSpace <+: s := List.rdropWhile_prefix _ _
  refine ⟨indent, s.rdropWhile isSpace, s.rtakeWhile isSpace, rest, hindent,
    fun b hb => List.mem_rtakeWhile_imp hb, fun b hb => hr b ?_,
    fun h => notMem_before hash r (hpre.subset h), hhash, ?_, ?_⟩
  · obtain ⟨u, hu⟩ := hpre
    rw [hrest, ← hu, List.append_assoc, List.head?_append, hb]
    rfl
  · rw [hline, ← List.append_assoc _ _ rest, hsplit, ← hrest]
  · have hblank : isSpace hash = false := by decide
    -- It starts with the word, and ends with the last byte that is no white space.
    have htrimmed : Trimmed (lit "server" ++ s.rdropWhile isSpace) := by
      constructor
      · intro b hb
        obtain rfl := Option.some.inj hb
        decide
      · intro b hb
        rw [List.getLast?_append] at hb
        rcases Option.or_eq_some_iff.1 hb with h | ⟨-, h⟩
        · have hne : s.rdropWhile isSpace ≠ [] := by
            intro hnil
            rw [hnil] at h
            cases h
          have hlast := List.rdropWhile_last_not isSpace s hne
          rw [List.getLast?_eq_some_getLast hne, Option.some_inj] at h
          rw [h] at hlast
          simpa using hlast
        · obtain rfl := Option.some.inj h
          decide
    calc content line = trim (before hash line) := by rw [content, before_eq_self hnul]
      _ = trim (indent ++ (lit "server" ++ s)) := by
        rw [hline, before_append_of_notMem (hindent.notMem hblank),
          before_append_of_notMem hash_notMem_server]
      _ = trim (indent ++ ((lit "server" ++ s.rdropWhile isSpace) ++ s.rtakeWhile isSpace)) := by
        rw [List.append_assoc (lit "server"), hsplit]
      _ = lit "server" ++ s.rdropWhile isSpace :=
        trim_append hindent htrimmed (by simp [lit]) fun b hb => List.mem_rtakeWhile_imp hb

namespace ServerLine

/-- What the parser sees of a line that it takes. -/
theorem content_text {l : ServerLine} (hclean : l.Clean) (hnul : nul ∉ l.text) :
    content l.text = lit "server" ++
      (l.gap ++ (l.name ++ (l.space ++ (l.host.text ++ colon :: l.target.text)))) := by
  set seen := l.gap ++ (l.name ++ (l.space ++ (l.host.text ++ colon :: l.target.text))) with hseen
  have hblank : isSpace hash = false := by decide
  have hcolon : hash ≠ colon := by decide
  have hhash : hash ∉ l.indent ++ (lit "server" ++ seen) := by
    rw [hseen]
    simp only [List.mem_append, List.mem_cons, not_or]
    exact ⟨l.blank_indent.notMem hblank, hash_notMem_server, l.blank_gap.notMem hblank,
      hclean.name, l.blank_space.notMem hblank, hash_notMem_numeral _, hcolon,
      hash_notMem_numeral _⟩
  have htext : l.text = l.indent ++ (lit "server" ++ seen) ++ l.tail := by
    rw [text, body, hclean.pad, hseen]
    simp only [List.append_assoc, List.cons_append, List.nil_append]
  have htrimmed : Trimmed (lit "server" ++ seen) := by
    have hassoc : lit "server" ++ seen =
        lit "server" ++ (l.gap ++ (l.name ++ (l.space ++ (l.host.text ++ [colon])))) ++
          l.target.text := by
      rw [hseen]
      simp only [List.append_assoc, List.cons_append, List.nil_append]
    have hserver : Trimmed (lit "server") := by decide
    have htarget : Trimmed l.target.text :=
      trimmed_of_forall fun b hb => Numeral.isSpace_of_mem_text hb
    rw [hassoc]
    exact hserver.append htarget (by decide) l.target.text_ne_nil _
  calc content l.text = trim (before hash l.text) := by rw [content, before_eq_self hnul]
    _ = trim (l.indent ++ (lit "server" ++ seen) ++ before hash l.tail) := by
      rw [htext, before_append_of_notMem hhash]
    _ = lit "server" ++ seen := by
      rw [List.append_assoc]
      exact trim_append l.blank_indent htrimmed (by simp [lit]) hclean.tail

/-- The parser reads the server of a line that it takes. -/
theorem readEntry_content {l : ServerLine} (hclean : l.Clean) (hnul : nul ∉ l.text) :
    readEntry (content l.text) = .server l.server := by
  obtain ⟨b, gap, hgap⟩ := List.exists_cons_of_ne_nil l.gap_ne_nil
  have hb : isSpace b = true := l.blank_gap b (hgap ▸ List.mem_cons_self)
  have hdirective : isDirective (lit "server") (content l.text) = true := by
    refine isDirective_iff.2 ⟨b, hb, ?_⟩
    rw [content_text hclean hnul, hgap]
    exact (List.prefix_append_right_inj _).2 (List.prefix_append [b] _)
  rw [readEntry_server hdirective, content_text hclean hnul]
  refine readServer_eq_server_iff.2 ⟨l.gap, l.name, l.space, [], l.host, l.target, l.blank_gap,
    l.blank_space, blank_nil, hclean.host, hclean.target, l.isWord.numeral _, hclean.length, ?_,
    rfl⟩
  rw [List.append_nil]

end ServerLine

/-- A line that starts with `server` defines a server or is malformed. -/
theorem readServer_cases (line : Text) :
    readServer line = .malformed ∨ ∃ s, readServer line = .server s := by
  unfold readServer
  split
  · split
    · exact .inr ⟨_, rfl⟩
    · exact .inl rfl
  · exact .inl rfl

/-- White space and a comment go on with no digit, and only white space is in front of the
comment. -/
theorem tail_of_blank {spaces comment : Text} (hspaces : Blank spaces)
    (hcomment : ∀ b, comment.head? = some b → b = hash) :
    (∀ b, (spaces ++ comment).head? = some b → isDigit b = false) ∧
      Blank (before hash (spaces ++ comment)) := by
  constructor
  · intro b hb
    rw [List.head?_append] at hb
    rcases Option.or_eq_some_iff.1 hb with h | ⟨-, h⟩
    · have hspace := hspaces b (List.mem_of_mem_head? h)
      by_contra hdigit
      rw [isSpace_of_isDigit (by simpa using hdigit)] at hspace
      cases hspace
    · rw [hcomment b h]
      decide
  · have hnil : before hash comment = [] := by
      cases comment with
      | nil => rfl
      | cons b comment =>
        rw [hcomment b rfl]
        rfl
    rw [before_append_of_notMem (hspaces.notMem (by decide)), hnil, List.append_nil]
    exact hspaces

/-- A line with the first word `server` is malformed, or it is one that the parser takes. -/
theorem readEntry_cases {line : Text} (hword : firstWord line = lit "server") (hnul : nul ∉ line) :
    readEntry (content line) = .malformed ∨ ∃ l : ServerLine, l.text = line ∧ l.Clean := by
  obtain ⟨indent, t, v, rest, hindent, hv, ht, hhash, hrest, hline, hcontent⟩ :=
    exists_content hword hnul
  cases t with
  | nil =>
    -- The word alone is no directive, and has no `=`.
    left
    rw [hcontent]
    decide
  | cons b t =>
    have hdirective : isDirective (lit "server") (content line) = true := by
      refine isDirective_iff.2 ⟨b, ht b rfl, ?_⟩
      rw [hcontent]
      exact (List.prefix_append_right_inj _).2 (List.prefix_append [b] _)
    rw [readEntry_server hdirective, hcontent]
    refine (readServer_cases _).imp_right ?_
    rintro ⟨s, hread⟩
    obtain ⟨gap, name, space, after, host, target, hgap, hspace, hafter, hhost, htarget, hname,
      hlength, heq, -⟩ := readServer_eq_server_iff.1 hread
    have hgapne : gap ≠ [] := hname.spaces_ne_nil fun c hc => ht c (heq ▸ hc)
    -- The tail of the line: white space that the parser has trimmed away, and the comment.
    obtain ⟨htail, hblank⟩ := tail_of_blank (hafter.append hv) hrest
    refine ⟨⟨indent, gap, name, space, host, [], target, after ++ v ++ rest, hindent, hgap, hgapne,
      hname.numeral _, hspace, blank_nil, htail⟩, ?_, ⟨fun h => hhash ?_, rfl, hhost, htarget,
      hlength, hblank⟩⟩
    · rw [hline, heq, ServerLine.text, ServerLine.body]
      simp only [List.append_assoc, List.cons_append, List.nil_append]
    · rw [heq]
      exact List.mem_append_right _ (List.mem_append_left _ h)

/-! ## A file of one server line -/

/-- What the parser reads of a file of one line that fits its array: one whole line, with or without
a newline. -/
theorem entries_written {line : Text} (hne : line ≠ []) (hnewline : newline ∉ line)
    (hnul : nul ∉ line) (hfits : line.length < lineSize - 1) (ended : Bool) :
    (∀ raw ∈ (File.mk (written line ended) false).chunks, Complete raw) ∧
      entries (File.mk (written line ended) false).chunks = [readEntry (content line)] := by
  have hchunks : (File.mk (written line ended) false).chunks =
      [⟨written line ended, !ended⟩] := by
    rw [File.chunks, chunks_written (lineSize - 1) hnewline hne hfits ended]
    rfl
  rw [hchunks, List.forall_mem_singleton, entries, List.map_singleton]
  cases ended with
  | false => exact ⟨.inr rfl, rfl⟩
  | true =>
    constructor
    · left
      have hnul' : nul ∉ line ++ [newline] := notMem_concat (by decide) hnul
      show newline ∈ before nul (line ++ [newline])
      rw [before_eq_self hnul']
      exact List.mem_append_right _ List.mem_cons_self
    · exact congrArg (fun t => [readEntry t]) (content_append_newline line)

/-- A server line that the parser takes is allowed in a project file without servers. -/
theorem ServerLine.allowed {l : ServerLine} (hclean : l.Clean) (hnul : nul ∉ l.text) :
    (readEntry (content l.text)).Allowed .project .empty := by
  rw [readEntry_content hclean hnul]
  exact ⟨rfl, l.isWord.ne_nil, Nat.lt_succ_of_le l.isWord.length_le, List.not_mem_nil, by decide⟩

/-- The parser accepts a file of one server line into an empty configuration exactly when the line
is clean, and then the configuration has its server. -/
theorem accepts_iff {line : Text} (hword : firstWord line = lit "server")
    (hnewline : newline ∉ line) (hnul : nul ∉ line) (hlength : line.length ≤ 254) (ended : Bool)
    {fs : FileSystem} {path : Text} (hfile : fs path = some ⟨written line ended, false⟩) :
    ((parseConfigFile fs .empty path .project).ok = true ↔
        ∃ l : ServerLine, l.text = line ∧ l.Clean) ∧
      ∀ l : ServerLine, l.text = line → l.Clean →
        (parseConfigFile fs .empty path .project).config.servers = [l.server] := by
  have hne : line ≠ [] := by
    rintro rfl
    exact absurd hword (by decide)
  obtain ⟨hwhole, hentries⟩ := entries_written hne hnewline hnul
    (hlength.trans_lt (by decide)) ended
  -- The file has one entry, so it is accepted just if that is allowed.
  have hok : (parseConfigFile fs .empty path .project).ok = true ↔
      (readEntry (content line)).Allowed .project .empty := by
    rw [parseConfigFile_ok_iff]
    constructor
    · rintro ⟨file, hfile', -, -, hallowed⟩
      obtain rfl := Option.some.inj (hfile.symm.trans hfile')
      rw [hentries] at hallowed
      exact hallowed.1
    · intro hallowed
      refine ⟨_, hfile, rfl, hwhole, ?_⟩
      rw [hentries]
      exact ⟨hallowed, trivial⟩
  refine ⟨⟨fun h => ?_, ?_⟩, ?_⟩
  · -- A line that is not clean is no server line.
    rcases readEntry_cases hword hnul with hmalformed | hclean
    · have hnot := hok.1 h
      rw [hmalformed] at hnot
      exact absurd hnot id
    · exact hclean
  · rintro ⟨l, rfl, hclean⟩
    exact hok.2 (ServerLine.allowed hclean hnul)
  · rintro l rfl hclean
    have hconfig := parseConfigFile_config hfile (hok.2 (ServerLine.allowed hclean hnul))
    rw [hentries, ServerLine.readEntry_content hclean hnul] at hconfig
    rw [hconfig]
    rfl

end LibPolyCall.Config
