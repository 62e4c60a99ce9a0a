import LibPolyCall.Tokenizer.Tokenizer

/-!
# The reference scan

`lexer` cuts a text as `polycall_tokenizer_process` is meant to: white space is skipped, and
elsewhere the first operation whose pattern matches takes its lexeme. `processLoop_of_scans` shows
what the loop makes of a text that ends with a terminator inside the buffer. It follows the scan as
far as something matches, and it stores the tokens that fit. But it stops at the size of the buffer
only, not at the end of the text, where it finds the terminator and fails. So
`polycall_tokenizer_process` returns true only when the text fills the buffer, and
`tokenises_iff` states when it does what it should.
-/

namespace LibPolyCall.Tokenizer

open Scan Lexing

/-- Where a scan stands: the offset in the input, and the source position. -/
structure Place where
  offset : ℕ
  position : SourcePosition
deriving DecidableEq, Repr

/-- The place at the start of an input. -/
def Place.start : Place := ⟨0, ⟨1, 1⟩⟩

/-- The reference scan with these operations. -/
def lexer (ops : TokenizerOperations) : Lexer UInt8 (TokenPattern × TokenConsumer) Place where
  skip := isSpace
  pick := firstMatch ops
  skipped p b := ⟨p.offset + 1, p.position.skip b⟩
  taken p n := ⟨p.offset + n, p.position.advance n⟩

/-- The lexemes of the reference scan. -/
abbrev TokenLexeme := Lexeme UInt8 (TokenPattern × TokenConsumer) Place

/-- The token of a lexeme. -/
def tokenOf (strtod : Text → UInt64) (x : TokenLexeme) : PolycallToken :=
  makeToken strtod x.place.position x.place.offset x.item x.text x.length

/-- The operations are built-in matchers, and nothing but matchers: their consumers leave the tokens
as they are. -/
def BuiltIn (ops : TokenizerOperations) : Prop :=
  ∀ op ∈ ops, op.1.matcher ∈ builtInMatchers ∧
    ∀ token, op.2.accepts = token.type → op.2.consume token = token

section FirstMatch

variable {ops : TokenizerOperations}

/-- The first match is that of one of the operations. -/
theorem matcher_of_firstMatch {u : Text} {op : TokenPattern × TokenConsumer} {n : ℕ}
    (h : firstMatch ops u = some (op, n)) : op ∈ ops ∧ op.1.matcher u = some n := by
  obtain ⟨op', hop', hmap⟩ := List.exists_of_findSome?_eq_some h
  obtain ⟨n', hn', heq⟩ := Option.map_eq_some_iff.1 hmap
  obtain ⟨rfl, rfl⟩ := Prod.mk.inj heq
  exact ⟨hop', hn'⟩

variable (hlocal : ∀ op ∈ ops, Local op.1.matcher)
include hlocal

/-- A lexeme is not empty and does not leave the text. -/
theorem firstMatch_bounds {u : Text} {op : TokenPattern × TokenConsumer} {n : ℕ}
    (h : firstMatch ops u = some (op, n)) : 0 < n ∧ n ≤ u.length := by
  obtain ⟨hop, hmatch⟩ := matcher_of_firstMatch h
  exact ⟨(hlocal op hop).pos u n hmatch, (hlocal op hop).le u n hmatch⟩

/-- The first match does not look behind the terminator. -/
theorem firstMatch_append (u v : Text) : firstMatch ops (u ++ nul :: v) = firstMatch ops u := by
  induction ops with
  | nil => rfl
  | cons op ops ih =>
    have hop : op.1.matcher (u ++ nul :: v) = op.1.matcher u :=
      (hlocal op List.mem_cons_self).stops u v
    have hops := ih fun op' h => hlocal op' (List.mem_cons_of_mem _ h)
    unfold firstMatch at hops ⊢
    rw [List.findSome?_cons, List.findSome?_cons, hop, hops]

/-- Nothing matches at a terminator. -/
theorem firstMatch_nul (v : Text) : firstMatch ops (nul :: v) = none := by
  rw [← List.nil_append (nul :: v), firstMatch_append hlocal]
  cases h : firstMatch ops [] with
  | none => rfl
  | some found =>
    obtain ⟨op, n⟩ := found
    obtain ⟨hpos, hle⟩ := firstMatch_bounds hlocal h
    rw [List.length_nil] at hle
    omega

/-- Every text has a scan. -/
theorem exists_scan (input : Text) : ∃ ls r q, (lexer ops).Scans .start input ls r q :=
  Lexer.exists_scans (fun _ _ _ hpick => (firstMatch_bounds hlocal hpick).1) Place.start input

end FirstMatch

/-- Built-in operations have local matchers. -/
theorem BuiltIn.local {ops : TokenizerOperations} (h : BuiltIn ops) :
    ∀ op ∈ ops, Local op.1.matcher := fun op hop => local_of_mem_builtInMatchers (h op hop).1

/-- A consumer that leaves the tokens as they are. -/
theorem makeToken_of_leaves {op : TokenPattern × TokenConsumer}
    (hconsumer : ∀ token, op.2.accepts = token.type → op.2.consume token = token)
    (strtod : Text → UInt64) (position : SourcePosition) (data : ℕ) (start : Text) (length : ℕ) :
    makeToken strtod position data op start length =
      createToken strtod position data op.1.produces start length := by
  unfold makeToken
  dsimp only
  split_ifs with haccepts
  · exact hconsumer _ haccepts
  · rfl

/-- A built-in operation makes the token that it produces. -/
theorem BuiltIn.makeToken {ops : TokenizerOperations} (h : BuiltIn ops)
    {op : TokenPattern × TokenConsumer} (hop : op ∈ ops) (strtod : Text → UInt64)
    (position : SourcePosition) (data : ℕ) (start : Text) (length : ℕ) :
    makeToken strtod position data op start length =
      createToken strtod position data op.1.produces start length :=
  makeToken_of_leaves (h op hop).2 strtod position data start length

/-- What stands behind the terminator does not matter to a token. -/
theorem makeToken_append (strtod : Text → UInt64) (position : SourcePosition) (data : ℕ)
    (op : TokenPattern × TokenConsumer) (u v : Text) (length : ℕ) :
    makeToken strtod position data op (u ++ nul :: v) length =
      makeToken strtod position data op u length := by
  unfold makeToken createToken
  rw [before_append_cons_eq]

/-- The tokenizer with its scan at a place and these tokens added. -/
def PolycallTokenizer.scanned (t : PolycallTokenizer) (p : Place) (tokens : List PolycallToken) :
    PolycallTokenizer :=
  { t with
    input := { t.input with position := p.offset }
    position := p.position
    tokens := t.tokens.addAll tokens }

/-- Where the scan of a tokenizer stands. -/
def PolycallTokenizer.place (t : PolycallTokenizer) : Place := ⟨t.input.position, t.position⟩

/-- Without tokens at its own place, a tokenizer is as it was. -/
theorem PolycallTokenizer.scanned_place (t : PolycallTokenizer) : t.scanned t.place [] = t := by
  unfold scanned
  rw [PolycallTokenArray.addAll_nil]
  rfl

/-- A byte that is skipped does not change where the scan leads. -/
theorem PolycallTokenizer.scanned_skip (t : PolycallTokenizer) (b : UInt8) (p : Place)
    (tokens : List PolycallToken) : (t.skip b).scanned p tokens = t.scanned p tokens := rfl

/-- A lexeme that is taken adds its token to those behind it. -/
theorem PolycallTokenizer.scanned_take (strtod : Text → UInt64) (t : PolycallTokenizer)
    (op : TokenPattern × TokenConsumer) (n : ℕ) (p : Place) (tokens : List PolycallToken) :
    (t.take strtod op n).scanned p tokens =
      t.scanned p (makeToken strtod t.position t.input.position op t.current n :: tokens) := by
  unfold scanned take
  dsimp only
  rw [PolycallTokenArray.addAll_add]

/-- The rest of the input of a tokenizer is this text: it is followed by a terminator, and it ends
inside the buffer. -/
structure PolycallTokenizer.Rest (t : PolycallTokenizer) (u : Text) : Prop where
  current : ∃ v, t.current = u ++ nul :: v
  size : t.input.position + u.length ≤ t.input.size

namespace PolycallTokenizer.Rest

variable {t : PolycallTokenizer}

/-- The next byte is the first of the rest. -/
theorem byteAt_cons {a : UInt8} {u : Text} (h : t.Rest (a :: u)) : byteAt t.current 0 = a := by
  obtain ⟨v, hv⟩ := h.current
  rw [hv]
  rfl

/-- While there is a rest, the position is inside the buffer. -/
theorem position_lt {a : UInt8} {u : Text} (h : t.Rest (a :: u)) :
    t.input.position < t.input.size := by
  have hsize := h.size
  rw [List.length_cons] at hsize
  omega

/-- The first match is that of the rest. -/
theorem firstMatch_eq {u : Text} (h : t.Rest u) {ops : TokenizerOperations}
    (hlocal : ∀ op ∈ ops, Local op.1.matcher) : firstMatch ops t.current = firstMatch ops u := by
  obtain ⟨v, hv⟩ := h.current
  rw [hv, firstMatch_append hlocal]

/-- The token is that of the rest. -/
theorem makeToken_eq {u : Text} (h : t.Rest u) (strtod : Text → UInt64)
    (op : TokenPattern × TokenConsumer) (n : ℕ) :
    makeToken strtod t.position t.input.position op t.current n =
      makeToken strtod t.position t.input.position op u n := by
  obtain ⟨v, hv⟩ := h.current
  rw [hv, makeToken_append]

/-- Behind the first bytes of the rest the others are left. -/
theorem drop {u : Text} (h : t.Rest u) {n : ℕ} (hn : n ≤ u.length) {t' : PolycallTokenizer}
    (hinput : t'.input = { t.input with position := t.input.position + n }) :
    t'.Rest (u.drop n) := by
  obtain ⟨v, hv⟩ := h.current
  have hsize := h.size
  constructor
  · refine ⟨v, ?_⟩
    unfold PolycallTokenizer.current at hv ⊢
    rw [hinput]
    dsimp only
    rw [← List.drop_drop, hv, List.drop_append_of_le_length hn]
  · rw [hinput, List.length_drop]
    dsimp only
    omega

end PolycallTokenizer.Rest

section Move

variable {t t' : PolycallTokenizer} {n : ℕ}

/-- The end of the text stays where it is when the tokenizer moves along it. -/
theorem position_drop {u : Text} (hn : n ≤ u.length)
    (hinput : t'.input = { t.input with position := t.input.position + n }) :
    t'.input.position + (u.drop n).length = t.input.position + u.length := by
  rw [hinput, List.length_drop]
  dsimp only
  omega

/-- A move takes up one of the rounds that are left. -/
theorem size_le_of_move {rounds : ℕ} (hn : 0 < n)
    (hinput : t'.input = { t.input with position := t.input.position + n })
    (h : t.input.size ≤ t.input.position + (rounds + 1)) :
    t'.input.size ≤ t'.input.position + rounds := by
  rw [hinput]
  dsimp only
  omega

end Move

section Rounds

variable (strtod : Text → UInt64) {ops : TokenizerOperations} {rounds : ℕ} {t : PolycallTokenizer}

/-- At the end of the buffer the loop ends. -/
theorem processLoop_full (h : t.input.position = t.input.size) :
    processLoop strtod ops rounds t = some (true, finish t) := by
  cases rounds with
  | zero => rfl
  | succ rounds => rw [processLoop, if_neg (by omega)]

/-- Where nothing matches the loop fails. -/
theorem processLoop_stuck (hlt : t.input.position < t.input.size)
    (hspace : isSpace (byteAt t.current 0) = false) (hmatch : firstMatch ops t.current = none) :
    processLoop strtod ops (rounds + 1) t =
      some (false, setErrorState t (lit "Invalid input")) := by
  rw [processLoop, if_pos hlt, if_neg (by simp [hspace]), hmatch]

/-- The loop goes on behind white space. -/
theorem processLoop_skip (hlt : t.input.position < t.input.size)
    (hspace : isSpace (byteAt t.current 0) = true) :
    processLoop strtod ops (rounds + 1) t =
      processLoop strtod ops rounds (t.skip (byteAt t.current 0)) := by
  rw [processLoop, if_pos hlt, if_pos hspace]

/-- The loop goes on behind a lexeme. -/
theorem processLoop_take (hlt : t.input.position < t.input.size)
    (hspace : isSpace (byteAt t.current 0) = false) {op : TokenPattern × TokenConsumer} {n : ℕ}
    (hmatch : firstMatch ops t.current = some (op, n)) (hn : 0 < n) :
    processLoop strtod ops (rounds + 1) t = processLoop strtod ops rounds (t.take strtod op n) := by
  rw [processLoop, if_pos hlt, if_neg (by simp [hspace]), hmatch]
  dsimp only
  rw [if_neg hn.ne']

end Rounds

/-- What the loop makes of a text of which the scan is known. -/
theorem processLoop_of_scans (strtod : Text → UInt64) {ops : TokenizerOperations}
    (hlocal : ∀ op ∈ ops, Local op.1.matcher) {p q : Place} {u r : Text} {ls : List TokenLexeme}
    (h : (lexer ops).Scans p u ls r q) : ∀ (rounds : ℕ) (t : PolycallTokenizer),
      t.place = p → t.Rest u → t.input.size ≤ t.input.position + rounds →
      processLoop strtod ops rounds t =
        some (if r = [] ∧ t.input.position + u.length = t.input.size then
            (true, finish (t.scanned q (ls.map (tokenOf strtod))))
          else (false, setErrorState (t.scanned q (ls.map (tokenOf strtod)))
            (lit "Invalid input"))) := by
  -- The induction is on the scan: each lexeme or skipped byte of it is a round of the loop.
  induction h with
  | done p =>
    rintro rounds t rfl hrest hrounds
    have hsize := hrest.size
    rw [List.length_nil, Nat.add_zero] at hsize ⊢
    rw [List.map_nil, t.scanned_place]
    by_cases hend : t.input.position = t.input.size
    · rw [if_pos ⟨rfl, hend⟩, processLoop_full strtod hend]
    · -- The loop goes on behind the text and meets the terminator.
      obtain ⟨v, hv⟩ := hrest.current
      obtain ⟨rounds, rfl⟩ : ∃ n, rounds = n + 1 := Nat.exists_eq_add_one.2 (by omega)
      rw [List.nil_append] at hv
      rw [if_neg (fun hand => hend hand.2)]
      refine processLoop_stuck strtod (by omega) ?_ ?_
      · rw [hv]
        rfl
      · rw [hv, firstMatch_nul hlocal]
  | stuck p hskip hpick =>
    rintro rounds t rfl hrest hrounds
    have hlt := hrest.position_lt
    obtain ⟨rounds, rfl⟩ : ∃ n, rounds = n + 1 := Nat.exists_eq_add_one.2 (by omega)
    rw [if_neg (fun hand => List.cons_ne_nil _ _ hand.1), List.map_nil, t.scanned_place]
    -- Neither white space nor a lexeme is next, so the loop stops with an error.
    refine processLoop_stuck strtod hlt ?_ ?_
    · rw [hrest.byteAt_cons]
      exact hskip
    · rw [hrest.firstMatch_eq hlocal]
      exact hpick
  | @skip p q a u r ls hskip h ih =>
    rintro rounds t rfl hrest hrounds
    have hlt := hrest.position_lt
    obtain ⟨rounds, rfl⟩ : ∃ n, rounds = n + 1 := Nat.exists_eq_add_one.2 (by omega)
    have hbyte := hrest.byteAt_cons
    -- A byte is skipped, and the rest of the scan is that of the moved tokenizer.
    have hmove : (t.skip a).input = { t.input with position := t.input.position + 1 } := rfl
    have hle : 1 ≤ (a :: u).length := Nat.le_add_left 1 u.length
    have hrest' : (t.skip a).Rest u := hrest.drop hle hmove
    have hsum : (t.skip a).input.position + u.length = t.input.position + (a :: u).length :=
      position_drop hle hmove
    have hnext := ih rounds (t.skip a) rfl hrest' (size_le_of_move one_pos hmove hrounds)
    rw [processLoop_skip strtod hlt (by rw [hbyte]; exact hskip), hbyte, hnext, hsum,
      t.scanned_skip]
    rfl
  | @take p q a u r ls op n hskip hpick h ih =>
    rintro rounds t rfl hrest hrounds
    have hlt := hrest.position_lt
    obtain ⟨rounds, rfl⟩ : ∃ n, rounds = n + 1 := Nat.exists_eq_add_one.2 (by omega)
    obtain ⟨hpos, hle⟩ := firstMatch_bounds hlocal hpick
    -- The loop finds the lexeme that the scan has, since the matchers stop at the terminator.
    have hspace : isSpace (byteAt t.current 0) = false := by
      rw [hrest.byteAt_cons]
      exact hskip
    have hmatch : firstMatch ops t.current = some (op, n) := by
      rw [hrest.firstMatch_eq hlocal]
      exact hpick
    have hmove : (t.take strtod op n).input =
        { t.input with position := t.input.position + n } := rfl
    -- Behind it the rest of the text is scanned with the rounds that are left.
    have hrest' : (t.take strtod op n).Rest ((a :: u).drop n) := hrest.drop hle hmove
    have hsum := position_drop hle hmove
    have hnext := ih rounds (t.take strtod op n) rfl hrest' (size_le_of_move hpos hmove hrounds)
    rw [processLoop_take strtod hlt hspace hmatch hpos, hnext, hsum, t.scanned_take strtod,
      hrest.makeToken_eq]
    rfl

/-! ## A whole input -/

/-- The inputs that a tokenizer accepts: they are not empty, and they fit the buffer. -/
theorem setInput_iff {t : PolycallTokenizer} {input : Text} :
    (setInput t (some input)).1 = true ↔ input ≠ [] ∧ input.length ≤ t.input.size := by
  unfold setInput
  dsimp only
  split_ifs with hempty hlong
  · simp [List.length_eq_zero_iff.1 hempty]
  · simp [hlong]
  · simp only [true_iff]
    exact ⟨fun hnil => hempty (List.length_eq_zero_iff.2 hnil), not_lt.1 hlong⟩

/-- What an accepted input leaves behind. -/
theorem setInput_accepted {t : PolycallTokenizer} {input : Text}
    (h : (setInput t (some input)).1 = true) :
    (setInput t (some input)).2 = resetState { t with
      input := ⟨input ++ nul :: t.input.buffer.drop (input.length + 1), t.input.size, 0⟩ } := by
  obtain ⟨hne, hfits⟩ := setInput_iff.1 h
  unfold setInput
  dsimp only
  rw [if_neg (fun hzero => hne (List.length_eq_zero_iff.1 hzero)), if_neg (not_lt.2 hfits)]

/-- The state in which `polycall_tokenizer_process` starts on an accepted input. -/
def PolycallTokenizer.scanning (t : PolycallTokenizer) (input : Text) : PolycallTokenizer :=
  { input := ⟨input ++ nul :: t.input.buffer.drop (input.length + 1), t.input.size, 0⟩
    position := ⟨1, 1⟩
    state := ⟨.scanning, none, t.state.errorCount⟩
    tokens := t.tokens }

/-- What `polycall_tokenizer_process` makes of an accepted input. -/
theorem process_of_scans (strtod : Text → UInt64) {ops : TokenizerOperations}
    (hlocal : ∀ op ∈ ops, Local op.1.matcher) {t : PolycallTokenizer} {input r : Text}
    (h : (setInput t (some input)).1 = true) {ls : List TokenLexeme} {q : Place}
    (hscan : (lexer ops).Scans .start input ls r q) :
    process strtod (setInput t (some input)).2 (some ops) =
      some (if r = [] ∧ input.length = t.input.size then
          (true, finish ((t.scanning input).scanned q (ls.map (tokenOf strtod))))
        else (false, setErrorState ((t.scanning input).scanned q (ls.map (tokenOf strtod)))
          (lit "Invalid input"))) := by
  have hfits := (setInput_iff.1 h).2
  have hrest : (t.scanning input).Rest input :=
    ⟨⟨_, List.drop_zero⟩, (Nat.zero_add _).trans_le hfits⟩
  have hloop := processLoop_of_scans strtod hlocal hscan t.input.size (t.scanning input) rfl hrest
    (Nat.zero_add _).ge
  have hend : (t.scanning input).input.position + input.length = input.length := Nat.zero_add _
  rw [hend] at hloop
  rw [process, setInput_accepted h]
  exact hloop

/-- The scan of the tokens' types and lengths that the reference takes. -/
def lexemeKinds (ls : List TokenLexeme) : List (PolycallTokenType × ℕ) :=
  ls.map fun x => (x.item.1.produces, x.length)

/-- The types and lengths of the tokens of an array. -/
def tokenKinds (tokens : List PolycallToken) : List (PolycallTokenType × ℕ) :=
  tokens.map fun token => (token.type, token.length.toNat)

/-- A new tokenizer is given the input and processes it: it returns true if and only if the
reference scan consumes the input, and then its array holds the tokens of the scan and one `EOF`
token. -/
def Tokenises (strtod : Text → UInt64) (ops : TokenizerOperations) (t : PolycallTokenizer)
    (input : Text) : Prop :=
  ∃ result t', process strtod (setInput t (some input)).2 (some ops) = some (result, t') ∧
    (result = true ↔ ∃ ls q, (lexer ops).Scans .start input ls [] q) ∧
    ∀ ls q, (lexer ops).Scans .start input ls [] q →
      tokenKinds t'.tokens.tokens = lexemeKinds ls ++ [(.eof, 0)]

/-- The tokens of built-in operations have the types that these produce, and the lengths of the
lexemes modulo `2^32`. -/
theorem tokenKinds_tokenOf (strtod : Text → UInt64) {ops : TokenizerOperations} (hops : BuiltIn ops)
    {p q : Place} {u r : Text} {ls : List TokenLexeme} (h : (lexer ops).Scans p u ls r q) :
    tokenKinds (ls.map (tokenOf strtod)) =
      ls.map fun x => (x.item.1.produces, x.length % 2 ^ 32) := by
  unfold tokenKinds
  rw [List.map_map]
  refine List.map_congr_left fun x hx => ?_
  have hitem := (matcher_of_firstMatch (h.pick_of_mem x hx)).1
  show ((tokenOf strtod x).type, (tokenOf strtod x).length.toNat) = _
  unfold tokenOf
  rw [hops.makeToken hitem]
  rfl

/-- What `polycall_tokenizer_create` makes of a configuration. -/
theorem create_eq {config : Option PolycallTokenizerConfig} {alloc : Allocations}
    {t : PolycallTokenizer} (h : create config alloc = .ok (some t)) :
    t.tokens = .create (UInt32.ofNat
        ((config.getD defaultConfig).buffer / (config.getD defaultConfig).token)) ∧
      t.input.size = (config.getD defaultConfig).buffer := by
  unfold create at h
  dsimp only at h
  cases hmemory : alloc.buffer with
  | none => rw [hmemory, ite_self] at h; cases h
  | some memory =>
    rw [hmemory] at h
    dsimp only at h
    split_ifs at h <;> cases h
    exact ⟨rfl, rfl⟩

/-- A tokenizer that was just created holds no tokens. -/
theorem tokens_of_create {config : Option PolycallTokenizerConfig} {alloc : Allocations}
    {t : PolycallTokenizer} (h : create config alloc = .ok (some t)) : t.tokens.tokens = [] := by
  rw [(create_eq h).1]
  rfl

/-- An input that does not fill the buffer is refused, whatever its scan. -/
theorem not_tokenises_of_lt (strtod : Text → UInt64) {ops : TokenizerOperations}
    (hops : BuiltIn ops) {t : PolycallTokenizer} {input : Text}
    (h : (setInput t (some input)).1 = true) (hlt : input.length < t.input.size)
    {ls : List TokenLexeme} {q : Place} (hscan : (lexer ops).Scans .start input ls [] q) :
    ¬Tokenises strtod ops t input := by
  rintro ⟨result, t', hprocess, hiff, -⟩
  rw [process_of_scans strtod hops.local h hscan, if_neg (fun hand => hlt.ne hand.2),
    Option.some_inj, Prod.mk.injEq] at hprocess
  rw [← hprocess.1] at hiff
  exact Bool.false_ne_true (hiff.2 ⟨ls, q, hscan⟩)

/-- The tokens that an input which fills the buffer leaves behind are those of its scan when they
fit. -/
theorem tokenKinds_finish_iff (strtod : Text → UInt64) {ops : TokenizerOperations}
    (hops : BuiltIn ops) {t : PolycallTokenizer} (hempty : t.tokens.tokens = []) {p q : Place}
    {u r : Text} {ls : List TokenLexeme} (hscan : (lexer ops).Scans p u ls r q) :
    tokenKinds (finish (t.scanned q (ls.map (tokenOf strtod)))).tokens.tokens =
        lexemeKinds ls ++ [(.eof, 0)] ↔
      ls.length < t.tokens.capacity.toNat ∧ ∀ x ∈ ls, x.length < 2 ^ 32 := by
  set array := (t.scanned q (ls.map (tokenOf strtod))).tokens with harray
  have hcapacity : array.capacity = t.tokens.capacity := rfl
  have htokens : array.tokens = (ls.map (tokenOf strtod)).take t.tokens.capacity.toNat := by
    show (t.tokens.tokens ++ _).take _ = _
    rw [hempty, List.nil_append]
  show tokenKinds (array.add (eofToken q.position)).tokens = _ ↔ _
  by_cases hfit : ls.length < t.tokens.capacity.toNat
  · have hall : array.tokens = ls.map (tokenOf strtod) := by
      rw [htokens, List.take_of_length_le (by rw [List.length_map]; omega)]
    have hadd : (array.add (eofToken q.position)).tokens =
        ls.map (tokenOf strtod) ++ [eofToken q.position] := by
      unfold PolycallTokenArray.add
      rw [dif_pos (by rw [hall, List.length_map, hcapacity]; exact hfit)]
      exact congrArg (· ++ _) hall
    have hkinds : tokenKinds (ls.map (tokenOf strtod) ++ [eofToken q.position]) =
        tokenKinds (ls.map (tokenOf strtod)) ++ [(.eof, 0)] := List.map_append
    -- The types agree in any case, and the lengths are stored modulo `2^32`.
    rw [hadd, hkinds, List.append_cancel_right_eq, tokenKinds_tokenOf strtod hops hscan,
      lexemeKinds, List.map_inj_left, and_iff_right hfit]
    refine forall₂_congr fun x hx => ?_
    rw [Prod.mk.injEq, and_iff_right rfl]
    exact ⟨fun hmod => by omega, fun hlt => Nat.mod_eq_of_lt hlt⟩
  · -- The array is full before the `EOF` token.
    rw [iff_false_intro (fun hand : _ ∧ _ => hfit hand.1), iff_false]
    intro heq
    have hlength := congrArg List.length heq
    have hcount := (array.add (eofToken q.position)).count_le
    rw [PolycallTokenArray.capacity_add, hcapacity] at hcount
    simp only [tokenKinds, lexemeKinds, List.length_map, List.length_append,
      List.length_singleton] at hlength
    omega

/-- A new tokenizer does with an accepted input what the reference scan says if and only if the scan
does not consume the input, or the input fills the buffer, its tokens and the `EOF` token fit the
array, and the lengths of its lexemes fit 32 bits. -/
theorem tokenises_iff (strtod : Text → UInt64) {config : Option PolycallTokenizerConfig}
    {alloc : Allocations} {t : PolycallTokenizer} (hcreate : create config alloc = .ok (some t))
    {ops : TokenizerOperations} (hops : BuiltIn ops) {input : Text}
    (haccept : (setInput t (some input)).1 = true) :
    Tokenises strtod ops t input ↔
      (∀ ls q, ¬(lexer ops).Scans .start input ls [] q) ∨
        input.length = t.input.size ∧ ∀ ls q, (lexer ops).Scans .start input ls [] q →
          ls.length < t.tokens.capacity.toNat ∧ ∀ x ∈ ls, x.length < 2 ^ 32 := by
  -- There is one scan of the input, and the loop does what it says.
  obtain ⟨ls, r, q, hscan⟩ := exists_scan hops.local input
  have hprocess := process_of_scans strtod hops.local haccept hscan
  by_cases hr : r = []
  · subst hr
    have hsome : ¬∀ ls q, ¬(lexer ops).Scans .start input ls [] q := fun hnone =>
      hnone ls q hscan
    rw [or_iff_right hsome]
    by_cases hfull : input.length = t.input.size
    · rw [if_pos ⟨rfl, hfull⟩] at hprocess
      -- The tokens of a new tokenizer are those of this call.
      have hempty : (t.scanning input).tokens.tokens = [] :=
        show t.tokens.tokens = [] from tokens_of_create hcreate
      have hkinds := tokenKinds_finish_iff strtod hops hempty hscan
      constructor
      · rintro ⟨result, t', hprocess', -, htokens⟩
        rw [hprocess, Option.some_inj, Prod.mk.injEq] at hprocess'
        obtain ⟨-, rfl⟩ := hprocess'
        refine ⟨hfull, fun ls' q' hscan' => ?_⟩
        obtain ⟨rfl, -, rfl⟩ := hscan.unique hscan'
        exact hkinds.1 (htokens ls q hscan)
      · rintro ⟨-, hfit⟩
        refine ⟨_, _, hprocess, ⟨fun _ => ⟨ls, q, hscan⟩, fun _ => rfl⟩, fun ls' q' hscan' => ?_⟩
        obtain ⟨rfl, -, rfl⟩ := hscan.unique hscan'
        exact hkinds.2 (hfit ls q hscan)
    · have hlt : input.length < t.input.size :=
        lt_of_le_of_ne (setInput_iff.1 haccept).2 hfull
      exact iff_of_false (not_tokenises_of_lt strtod hops haccept hlt hscan)
        fun hand => hfull hand.1
  · -- Something is left over: the scan fails, and so does the loop.
    have hnone : ∀ ls q, ¬(lexer ops).Scans .start input ls [] q := fun ls' q' hscan' =>
      hr (hscan.unique hscan').2.1
    rw [if_neg (fun hand => hr hand.1)] at hprocess
    have hrefused : ¬∃ ls q, (lexer ops).Scans .start input ls [] q := fun ⟨ls', q', hscan'⟩ =>
      hnone ls' q' hscan'
    exact iff_of_true ⟨_, _, hprocess, iff_of_false Bool.false_ne_true hrefused,
      fun ls' q' hscan' => absurd hscan' (hnone ls' q')⟩ (.inl hnone)

/-- The four matchers, with the token types that they are named after. -/
def matcherOperations : TokenizerOperations :=
  [(⟨matchIdentifier, .identifier⟩, ⟨id, .invalid⟩), (⟨matchNumber, .number⟩, ⟨id, .invalid⟩),
    (⟨matchString, .string⟩, ⟨id, .invalid⟩), (⟨matchOperator, .operator⟩, ⟨id, .invalid⟩)]

/-- The four operations are built-in ones. -/
theorem builtIn_matcherOperations : BuiltIn matcherOperations := by
  intro op hop
  have hmatchers : matcherOperations.map (fun op => op.1.matcher) = builtInMatchers := rfl
  refine ⟨hmatchers ▸ List.mem_map_of_mem hop, ?_⟩
  simp only [matcherOperations, List.mem_cons, List.not_mem_nil, or_false] at hop
  rcases hop with rfl | rfl | rfl | rfl <;> exact fun _ _ => rfl

/-- A new tokenizer with a buffer of two bytes and room for two tokens. -/
def smallTokenizer : PolycallTokenizer :=
  ⟨⟨[], 2, 0⟩, ⟨1, 1⟩, ⟨.ready, none, 0⟩, .create 2⟩

/-- A word that fills the buffer is tokenised. -/
theorem tokenises_iff_word :
    Tokenises (fun _ => 0) matcherOperations smallTokenizer (lit "ab") := by
  have hscan : (lexer matcherOperations).Scans .start (lit "ab") _ [] _ :=
    .take rfl rfl (.done _)
  refine (@tokenises_iff (fun _ => 0) (some ⟨2, 1⟩) ⟨true, some [], true⟩ smallTokenizer rfl _
    builtIn_matcherOperations (lit "ab") rfl).2 (.inr ⟨rfl, fun ls q hscan' => ?_⟩)
  obtain ⟨rfl, -, -⟩ := hscan.unique hscan'
  decide

/-- A word of one letter, and a buffer of the default size. -/
theorem word_refused : ∃ t,
    create none ⟨true, some (List.replicate 4096 0), true⟩ = .ok (some t) ∧
      BuiltIn matcherOperations ∧ (setInput t (some (lit "a"))).1 = true ∧
        ¬Tokenises (fun _ => 0) matcherOperations t (lit "a") := by
  refine ⟨_, rfl, builtIn_matcherOperations, rfl, ?_⟩
  have hscan : (lexer matcherOperations).Scans .start (lit "a") _ [] _ :=
    .take rfl rfl (.done _)
  exact not_tokenises_of_lt _ builtIn_matcherOperations rfl (by decide) hscan

end LibPolyCall.Tokenizer
