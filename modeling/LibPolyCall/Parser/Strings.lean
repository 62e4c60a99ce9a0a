import LibPolyCall.Parser.Parse
import LibPolyCall.Tokenizer.History

/-!
# Parsing a text

`polycall_parser_parse_string` and `polycall_parser_parse_file`, with what a parser keeps between
two calls. The tokenizer that `polycall_parser_create` makes has the default buffer, and
`polycall_parser_parse_string` hands it no operations. So nothing but white space is tokenised, and
that has to fill the buffer, of which all is scanned. After any calls before, a call gives a tree
exactly for such a text, and the tree has nothing below its root (`parse_blank_iff`).
-/

namespace LibPolyCall.Parser

open Tokenizer Fuel Scan Lexing

/-! ## The parser -/

/-- `error`. -/
structure ParserError where
  message : Text
  line : UInt32
  column : UInt32
deriving DecidableEq, Repr

/-- `PolycallParser`, with `max_nodes` of its configuration. -/
structure PolycallParser where
  tokenizer : PolycallTokenizer
  maxNodes : ℕ
  error : ParserError
deriving DecidableEq, Repr

/-- `DEFAULT_MAX_NODES`. -/
def defaultMaxNodes : ℕ := 65536

/-- `MAX_ERROR_LENGTH`. -/
def maxErrorLength : ℕ := 256

/-- `polycall_parser_create`, with the `max_nodes` of the configuration if there is one, and the
outcomes of its allocations. -/
def parserCreate (maxNodes : Option ℕ) (allocated : Bool) (alloc : Allocations) :
    Except Trap (Option PolycallParser) :=
  if !allocated then .ok none
  else
    match create none alloc with
    | .error trap => .error trap
    | .ok none => .ok none
    | .ok (some tokenizer) => .ok (some ⟨tokenizer, maxNodes.getD defaultMaxNodes, ⟨[], 0, 0⟩⟩)

/-- `set_parser_error`: the message as `vsnprintf` cuts it, and the place of the last token. -/
def setParserError (parser : PolycallParser) (message : Text) : PolycallParser :=
  let message := message.take (maxErrorLength - 2)
  match parser.tokenizer.tokens.tokens.getLast? with
  | none => { parser with error := { parser.error with message } }
  | some token => { parser with error := ⟨message, token.line, token.column⟩ }

/-- What the calls give: a tree, with what has become of the pool of its nodes, or `NULL`. -/
abbrev ParseResult := Option (PolycallAST ℕ × NodePool)

/-- `polycall_parser_parse_string`, with fuel for the loops of `parse_tokens`. -/
def parseString (strtod : Text → UInt64) (fuel : ℕ) (parser : PolycallParser)
    (input : Option Text) : Option (ParseResult × PolycallParser) :=
  match input with
  | none | some [] => some (none, parser)
  | some input =>
    match setInput parser.tokenizer (some input) with
    | (false, tokenizer) =>
      some (none, setParserError { parser with tokenizer } (lit "Failed to set parser input"))
    | (true, tokenizer) =>
      -- The operations are `{0}`.
      match process strtod tokenizer (some []) with
      | none => none
      | some (false, tokenizer) =>
        some (none, setParserError { parser with tokenizer } (lit "Tokenization failed"))
      | some (true, tokenizer) =>
        (parseTokens tokenizer.tokens.tokens parser.maxNodes fuel).map fun ast =>
          (some ast, { parser with tokenizer })

/-- What `polycall_parser_parse_file` finds: the file cannot be opened, there is no memory for it,
it cannot be read as a whole, or it has this content. -/
inductive FileRead where
  | notOpened
  | noMemory
  | notRead
  | content (text : Text)

/-- `polycall_parser_parse_file`. -/
def parseFile (strtod : Text → UInt64) (fuel : ℕ) (parser : PolycallParser)
    (filename : Option Text) (file : FileRead) : Option (ParseResult × PolycallParser) :=
  match filename with
  | none => some (none, parser)
  | some filename =>
    match file with
    | .notOpened =>
      some (none, setParserError parser (lit "Failed to open file: " ++ filename))
    | .noMemory =>
      some (none, setParserError parser (lit "Failed to allocate memory for file content"))
    | .notRead => some (none, setParserError parser (lit "Failed to read file content"))
    | .content text => parseString strtod fuel parser (some text)

/-- A call on a parser. -/
inductive ParseCall where
  | string (input : Option Text)
  | file (filename : Option Text) (file : FileRead)

/-- One call on a parser. -/
def parse (strtod : Text → UInt64) (parser : PolycallParser) (call : ParseCall) (fuel : ℕ) :
    Option (ParseResult × PolycallParser) :=
  match call with
  | .string input => parseString strtod fuel parser input
  | .file filename file => parseFile strtod fuel parser filename file

/-- The text that a call hands to `polycall_parser_parse_string`. -/
def ParseCall.text? : ParseCall → Option Text
  | .string input => input
  | .file (some _) (.content text) => some text
  | .file _ _ => none

/-- The parsers that calls lead to, each after the calls before it have returned. -/
inductive ParserReached (strtod : Text → UInt64) (fresh : PolycallParser) : PolycallParser → Prop
  | fresh : ParserReached strtod fresh fresh
  | call {parser after : PolycallParser} (h : ParserReached strtod fresh parser)
      {call : ParseCall} {fuel : ℕ} {result : ParseResult}
      (hparse : parse strtod parser call fuel = some (result, after)) :
      ParserReached strtod fresh after

/-! ## What is accepted -/

/-- The text is white space that fills the buffer of the tokenizer. -/
def FillsWithSpace (text : Text) : Prop :=
  text.length = defaultConfig.buffer ∧ ∀ b ∈ text, isSpace b = true

/-- Whether a text fills the buffer with white space can be decided. -/
instance (text : Text) : Decidable (FillsWithSpace text) :=
  inferInstanceAs (Decidable (_ ∧ _))

/-- The tree with a root and nothing below it, or without a root where there is no node for it. -/
def bareTree (maxNodes : ℕ) : PolycallAST ℕ × NodePool :=
  (if maxNodes = 0 then ⟨none, [], 0⟩ else ⟨some (.mk .program .none []), [0], 1⟩,
    destroyNodePool (createNodePool maxNodes))

/-- What the calls keep of a parser: the size of the buffer and the room for tokens, and that all
the tokens are `EOF` tokens. -/
structure Blank (fresh parser : PolycallParser) : Prop where
  maxNodes : parser.maxNodes = fresh.maxNodes
  size : parser.tokenizer.input.size = defaultConfig.buffer
  capacity : parser.tokenizer.tokens.capacity.toNat = 16
  eof : ∀ token ∈ parser.tokenizer.tokens.tokens, token.type = .eof

/-- Without operations the scan of a text ends at the first byte that is no white space. -/
theorem scans_nil {p q : Place} {u r : Text} {ls : List TokenLexeme}
    (h : (lexer []).Scans p u ls r q) : ls = [] ∧ r = u.dropWhile isSpace := by
  induction h with
  | done => exact ⟨rfl, rfl⟩
  | @stuck p a u hskip hpick =>
    have hspace : isSpace a = false := hskip
    exact ⟨rfl, (List.dropWhile_cons_of_neg (by simp [hspace])).symm⟩
  | @skip p q a u r ls hskip h ih =>
    have hspace : isSpace a = true := hskip
    exact ⟨ih.1, ih.2.trans (List.dropWhile_cons_of_pos hspace).symm⟩
  | take hskip hpick h ih => cases hpick

/-- What is tokenised without operations, and with what result. -/
theorem process_nil (strtod : Text → UInt64) {t : PolycallTokenizer} {input : Text}
    (h : (setInput t (some input)).1 = true) :
    ∃ t', process strtod (setInput t (some input)).2 (some []) =
        some (decide (input.length = t.input.size ∧ input.all isSpace = true), t') ∧
      t'.input.size = t.input.size ∧ t'.tokens.capacity = t.tokens.capacity ∧
      ∃ tokens, (∀ token ∈ tokens, token.type = .eof) ∧
        t'.tokens = t.tokens.addAll tokens ∧
        ((input.length = t.input.size ∧ input.all isSpace = true) → tokens ≠ []) := by
  have hnone : BuiltIn [] := fun op hop => absurd hop List.not_mem_nil
  obtain ⟨ls, r, q, hscan⟩ := exists_scan hnone.local input
  obtain ⟨rfl, rfl⟩ := scans_nil hscan
  obtain ⟨t', hprocess, -, htokens⟩ := process_tokens strtod hnone h hscan
  have hblank : (input.dropWhile isSpace = [] ∧ input.length = t.input.size) ↔
      (input.length = t.input.size ∧ input.all isSpace = true) := by
    rw [List.dropWhile_eq_nil_iff, List.all_eq_true, and_comm]
  simp only [hblank] at hprocess
  have hroom := sameRoom_processLoop strtod hprocess
  have hset := sameRoom_setInput t (some input)
  refine ⟨t', hprocess, hroom.1.trans hset.1, hroom.2.trans hset.2, _, ?_, htokens, ?_⟩
  · intro token hmem
    rw [scanTokens, List.map_nil, List.nil_append] at hmem
    split at hmem
    · rw [List.mem_singleton.1 hmem]
      rfl
    · cases hmem
  · intro hfull
    rw [scanTokens, if_pos (hblank.2 hfull)]
    exact List.append_ne_nil_of_right_ne_nil _ (List.cons_ne_nil _ _)

/-- Where the first token is an `EOF` token, the tree has nothing below its root. -/
theorem parseTokens_eof {token : PolycallToken} (tokens : List PolycallToken) (maxNodes : ℕ)
    (h : token.type = .eof) :
    Settles (parseTokens (token :: tokens) maxNodes) (bareTree maxNodes) := by
  unfold parseTokens parseProgram bareTree
  by_cases hnone : maxNodes = 0
  · subst hnone
    exact settles_some _
  · have hroot : allocateNode (initialState (token :: tokens) maxNodes) =
        (true, ⟨some (0, token), 0, ⟨maxNodes, 1, true⟩, []⟩) := by
      simp only [allocateNode, initialState, createNodePool, Nat.le_zero, hnone, if_false]
      rfl
    have hended : isNot .eof ⟨some (0, token), 0, ⟨maxNodes, 1, true⟩, []⟩ = false := by
      simp [isNot, ParserState.currentType, h]
    have hloop : Settles (fun fuel => parseFunctions (token :: tokens) fuel
        ([], ⟨some (0, token), 0, ⟨maxNodes, 1, true⟩, []⟩))
        ([], ⟨some (0, token), 0, ⟨maxNodes, 1, true⟩, []⟩) := loop_done hended
    rw [hroot, if_neg hnone]
    exact (hloop.map _).map _

/-- `polycall_tokenizer_set_input` leaves the tokens as they are. -/
theorem setInput_tokens (t : PolycallTokenizer) (input : Option Text) :
    (setInput t input).2.tokens = t.tokens := by
  unfold setInput
  split
  · rfl
  · dsimp only
    split_ifs <;> rfl

section Blank

variable {fresh parser : PolycallParser}

/-- An error keeps a parser blank. -/
theorem Blank.setParserError (h : Blank fresh parser) (message : Text) :
    Blank fresh (setParserError parser message) := by
  unfold Parser.setParserError
  dsimp only
  split <;> exact ⟨h.maxNodes, h.size, h.capacity, h.eof⟩

/-- Another tokenizer with the same room, and no other tokens than `EOF` tokens. -/
theorem Blank.setTokenizer (h : Blank fresh parser) {t : PolycallTokenizer}
    (hroom : SameRoom parser.tokenizer t) (heof : ∀ token ∈ t.tokens.tokens, token.type = .eof) :
    Blank fresh { parser with tokenizer := t } :=
  ⟨h.maxNodes, hroom.1.trans h.size, by rw [← h.capacity, ← hroom.2], heof⟩

/-- What `polycall_parser_parse_string` does with a text that is not empty. -/
theorem Blank.parseText (strtod : Text → UInt64) (h : Blank fresh parser) {input : Text}
    (hne : input ≠ []) :
    ∃ after, Settles (fun fuel => parseString strtod fuel parser (some input))
        (if FillsWithSpace input then some (bareTree fresh.maxNodes) else none, after) ∧
      Blank fresh after := by
  obtain ⟨b, bs, rfl⟩ := List.exists_cons_of_ne_nil hne
  simp only [parseString]
  have hpair : setInput parser.tokenizer (some (b :: bs)) =
      ((setInput parser.tokenizer (some (b :: bs))).1,
        (setInput parser.tokenizer (some (b :: bs))).2) := rfl
  cases hset : (setInput parser.tokenizer (some (b :: bs))).1 with
  | false =>
    -- The text is longer than the buffer.
    have hlong : ¬FillsWithSpace (b :: bs) := by
      intro hfill
      have htrue := setInput_iff.2 ⟨hne, hfill.1.trans_le h.size.ge⟩
      rw [hset] at htrue
      cases htrue
    rw [hpair, hset, if_neg hlong]
    refine ⟨_, settles_some _, Blank.setParserError ?_ _⟩
    refine h.setTokenizer (sameRoom_setInput _ _) fun token hmem => h.eof token ?_
    rwa [setInput_tokens] at hmem
  | true =>
    obtain ⟨t, hprocess, hsize, hcapacity, tokens, heof, htokens, hfirst⟩ :=
      process_nil strtod hset
    have hall : ∀ token ∈ t.tokens.tokens, token.type = .eof := by
      intro token hmem
      rw [htokens] at hmem
      rcases List.mem_append.1 (List.mem_of_mem_take hmem) with hold | hnew
      · exact h.eof token hold
      · exact heof token hnew
    have hblank := h.setTokenizer ⟨hsize, hcapacity⟩ hall
    rw [hpair, hset]
    dsimp only
    rw [hprocess]
    have hiff : (List.length (b :: bs) = parser.tokenizer.input.size ∧
        (b :: bs).all isSpace = true) ↔ FillsWithSpace (b :: bs) := by
      rw [h.size, List.all_eq_true]
      rfl
    simp only [hiff] at hfirst ⊢
    by_cases hfill : FillsWithSpace (b :: bs)
    · rw [decide_eq_true hfill, if_pos hfill]
      obtain ⟨first, rest, hcons⟩ : ∃ first rest, t.tokens.tokens = first :: rest := by
        refine List.exists_cons_of_ne_nil fun hnil => ?_
        have hlength := congrArg (fun a : PolycallTokenArray => a.tokens.length) htokens
        rw [hnil] at hlength
        have hroom := h.capacity
        have hsome := List.length_pos_iff.2 (hfirst hfill)
        simp only [PolycallTokenArray.addAll, List.length_take, List.length_append,
          List.length_nil] at hlength
        omega
      have htree := parseTokens_eof rest parser.maxNodes
        (hall first (by rw [hcons]; exact List.mem_cons_self))
      rw [← hcons] at htree
      rw [← h.maxNodes]
      exact ⟨_, htree.map fun ast => (some ast, { parser with tokenizer := t }), hblank⟩
    · rw [decide_eq_false hfill, if_neg hfill]
      exact ⟨_, settles_some _, hblank.setParserError _⟩

/-- A call with a text parses it. -/
theorem parse_of_text (strtod : Text → UInt64) (parser : PolycallParser) {call : ParseCall}
    {text : Text} (h : call.text? = some text) (fuel : ℕ) :
    parse strtod parser call fuel = parseString strtod fuel parser (some text) := by
  cases call with
  | string input =>
    obtain rfl : input = some text := h
    rfl
  | file filename file =>
    cases filename with
    | none => cases h
    | some filename =>
      cases file with
      | content other =>
        obtain rfl := Option.some.inj h
        rfl
      | notOpened | noMemory | notRead => cases h

/-- A call without a text gives nothing. -/
theorem Blank.parse_of_none (strtod : Text → UInt64) (h : Blank fresh parser) {call : ParseCall}
    (hnone : call.text? = none) :
    ∃ after, (∀ fuel, parse strtod parser call fuel = some (none, after)) ∧
      Blank fresh after := by
  cases call with
  | string input =>
    obtain rfl : input = none := hnone
    exact ⟨_, fun _ => rfl, h⟩
  | file filename file =>
    cases filename with
    | none => exact ⟨_, fun _ => rfl, h⟩
    | some filename =>
      cases file with
      | content text => cases hnone
      | notOpened | noMemory | notRead => exact ⟨_, fun _ => rfl, h.setParserError _⟩

/-- A call gives the bare tree for a text that fills the buffer with white space and nothing for
any other, and keeps what the calls before it have kept. -/
theorem Blank.parse (strtod : Text → UInt64) (h : Blank fresh parser) (call : ParseCall) :
    ∃ after, Settles (parse strtod parser call)
        (if ∃ text, call.text? = some text ∧ FillsWithSpace text then
          some (bareTree fresh.maxNodes) else none, after) ∧
      Blank fresh after := by
  cases htext : call.text? with
  | none =>
    obtain ⟨after, hparse, hblank⟩ := h.parse_of_none strtod htext
    rw [if_neg (by simp)]
    exact ⟨after, settles_of_forall hparse, hblank⟩
  | some text =>
    have hparse := funext (parse_of_text strtod parser htext)
    simp only [Option.some.injEq, exists_eq_left']
    rw [hparse]
    by_cases hempty : text = []
    · subst hempty
      exact ⟨_, settles_some _, h⟩
    · exact h.parseText strtod hempty

/-- What calls lead to is kept blank. -/
theorem ParserReached.blank {strtod : Text → UInt64} (h : ParserReached strtod fresh parser)
    (hfresh : Blank fresh fresh) : Blank fresh parser := by
  induction h with
  | fresh => exact hfresh
  | @call parser after h call fuel result hparse ih =>
    obtain ⟨after', hsettles, hblank⟩ := ih.parse strtod call
    obtain rfl : after = after' := congrArg Prod.snd (hsettles.eq_of_some hparse)
    exact hblank

end Blank

/-- A parser that was created has not seen any token. -/
theorem blank_parserCreate {maxNodes : Option ℕ} {allocated : Bool} {alloc : Allocations}
    {fresh : PolycallParser} (h : parserCreate maxNodes allocated alloc = .ok (some fresh)) :
    Blank fresh fresh ∧ fresh.maxNodes = maxNodes.getD defaultMaxNodes := by
  unfold parserCreate at h
  split at h
  · cases h
  · split at h
    · cases h
    · cases h
    · next tokenizer hcreate =>
      cases h
      obtain ⟨htokens, hsize⟩ := create_eq hcreate
      refine ⟨⟨rfl, hsize, ?_, ?_⟩, rfl⟩
      · rw [htokens]
        rfl
      · rw [tokens_of_create hcreate]
        exact fun token hmem => absurd hmem List.not_mem_nil

/-- After any calls on a parser, a call returns, and it gives a tree exactly when its text is 4096
bytes of white space. The tree has a root and nothing below it. -/
theorem parse_blank_iff (strtod : Text → UInt64) (maxNodes : Option ℕ) (allocated : Bool)
    (alloc : Allocations) (fresh parser : PolycallParser)
    (hcreate : parserCreate maxNodes allocated alloc = .ok (some fresh))
    (hreached : ParserReached strtod fresh parser) (call : ParseCall) :
    ∃ after, Settles (parse strtod parser call)
      (if ∃ text, call.text? = some text ∧ FillsWithSpace text then
        some (bareTree (maxNodes.getD defaultMaxNodes)) else none, after) := by
  obtain ⟨hblank, hnodes⟩ := blank_parserCreate hcreate
  obtain ⟨after, hsettles, -⟩ := (hreached.blank hblank).parse strtod call
  rw [hnodes] at hsettles
  exact ⟨after, hsettles⟩

/-- A parser that has been given a function gives no tree of another one, and one of 4096 blanks. -/
theorem parse_blank_iff_function : ∃ fresh parser after afterBlanks,
    parserCreate none true ⟨true, some [], true⟩ = .ok (some fresh) ∧
      ParserReached (fun _ => 0) fresh parser ∧
      Settles (parse (fun _ => 0) parser (.string (some (lit "f ; ; g ;")))) (none, after) ∧
      Settles (parse (fun _ => 0) parser (.string (some (List.replicate 4096 32))))
        (some (bareTree 65536), afterBlanks) := by
  obtain ⟨fresh, hcreate⟩ : ∃ fresh,
      parserCreate none true ⟨true, some [], true⟩ = .ok (some fresh) := ⟨_, rfl⟩
  obtain ⟨parser, hsettles⟩ := parse_blank_iff (fun _ => 0) none true ⟨true, some [], true⟩ fresh
    fresh hcreate .fresh (.string (some (lit "f ; ; g ;")))
  obtain ⟨fuel, hparse⟩ := hsettles.exists_some
  have hreached : ParserReached (fun _ => 0) fresh parser := .call .fresh hparse
  obtain ⟨after, hfunction⟩ := parse_blank_iff (fun _ => 0) none true ⟨true, some [], true⟩ fresh
    parser hcreate hreached (.string (some (lit "f ; ; g ;")))
  obtain ⟨afterBlanks, hblanks⟩ := parse_blank_iff (fun _ => 0) none true ⟨true, some [], true⟩
    fresh parser hcreate hreached (.string (some (List.replicate 4096 32)))
  have hshort : ¬∃ text, (ParseCall.string (some (lit "f ; ; g ;"))).text? = some text ∧
      FillsWithSpace text := by
    rintro ⟨text, htext, hlength, -⟩
    cases htext
    revert hlength
    decide
  have hfills : ∃ text, (ParseCall.string (some (List.replicate 4096 32))).text? = some text ∧
      FillsWithSpace text :=
    ⟨_, rfl, List.length_replicate, fun b hb => (List.eq_of_mem_replicate hb).symm ▸ rfl⟩
  rw [if_neg hshort] at hfunction
  rw [if_pos hfills] at hblanks
  exact ⟨fresh, parser, after, afterBlanks, hcreate, hreached, hfunction, hblanks⟩

end LibPolyCall.Parser
