import LibPolyCall.Library.Positions
import LibPolyCall.Tokenizer.Bounds

/-!
# Lines and columns of tokens

The tokenizer counts lines and columns on two ways: a byte of white space may start a new line, and
a lexeme moves the column on by its length, also when it is a string with newlines in it. So the
position is the one in the source until a lexeme with a newline is taken, and the line is behind for
ever after (`InCall.sourcePosition_cases`). `positionsTrue_iff` says this of the tokens that a call
stores.
-/

namespace LibPolyCall.Tokenizer

open Scan Positions

/-- The line and the column of the place in an input at an offset. -/
def truePosition (input : Text) (offset : ℕ) : SourcePosition :=
  ⟨line newline (input.take offset), column newline (input.take offset)⟩

/-- No lexeme that a call takes in front of an offset contains a newline. -/
def NoNewlineTaken (strtod : Text → UInt64) (ops : TokenizerOperations) (t : PolycallTokenizer)
    (offset : ℕ) : Prop :=
  ∀ s op n, InCall strtod ops t s → Takes ops s op n → s.input.position < offset →
    newline ∉ s.current.take n

/-! ## The position in the source -/

section Steps

variable {input : Text} {offset n : ℕ}

/-- White space moves the position as it does in the source. -/
theorem skip_truePosition {b : UInt8} (hb : (input.drop offset).head? = some b) :
    (truePosition input offset).skip b = truePosition input (offset + 1) := by
  obtain ⟨rest, hrest⟩ : ∃ rest, input.drop offset = b :: rest :=
    ⟨_, List.eq_cons_of_mem_head? hb⟩
  have htake : input.take (offset + 1) = input.take offset ++ [b] := by
    rw [List.take_add, hrest]
    rfl
  unfold SourcePosition.skip truePosition
  rw [htake]
  split_ifs with hnewline
  · rw [hnewline, line_concat_self, column_concat_self]
  · have hnot : newline ∉ [b] := by simpa using Ne.symm hnewline
    rw [line_append_of_notMem hnot, column_append hnot]
    rfl

/-- A lexeme without a newline moves the position as it does in the source. -/
theorem advance_truePosition (hle : n ≤ (input.drop offset).length)
    (hnot : newline ∉ (input.drop offset).take n) :
    (truePosition input offset).advance n = truePosition input (offset + n) := by
  unfold SourcePosition.advance truePosition
  rw [List.take_add, line_append_of_notMem hnot, column_append hnot, List.length_take,
    Nat.min_eq_left hle]

/-- A lexeme with a newline ends a line of the source. -/
theorem line_lt_of_mem (hmem : newline ∈ (input.drop offset).take n) :
    (truePosition input offset).line < (truePosition input (offset + n)).line := by
  unfold truePosition
  rw [List.take_add, line_append]
  exact Nat.lt_add_of_pos_right (List.count_pos_iff.2 hmem)

/-- The lines do not decrease along the input. -/
theorem line_le_add (input : Text) (offset n : ℕ) :
    (truePosition input offset).line ≤ (truePosition input (offset + n)).line := by
  unfold truePosition
  rw [List.take_add, line_append]
  exact Nat.le_add_right _ _

end Steps

section Call

variable {strtod : Text → UInt64} {ops : TokenizerOperations} {t s s' : PolycallTokenizer}
  {input : Text}

/-- A round takes no newline in a lexeme exactly when none was taken before and it takes none. -/
theorem noNewlineTaken_iff (hs : InCall strtod ops t s) (hround : Round strtod ops s s') :
    NoNewlineTaken strtod ops t s'.input.position ↔
      NoNewlineTaken strtod ops t s.input.position ∧
        ∀ op n, Takes ops s op n → newline ∉ s.current.take n := by
  constructor
  · intro h
    exact ⟨fun r op n hr htakes hlt => h r op n hr htakes (hlt.trans hround.position_lt),
      fun op n htakes => h s op n hs htakes hround.position_lt⟩
  · rintro ⟨hbefore, hnow⟩ r op n hr htakes hlt
    rcases hs.position_cases hr hround with hfront | rfl | hbehind
    · exact hbefore r op n hr htakes hfront
    · exact hnow op n htakes
    · exact absurd hlt (Nat.not_lt.2 hbehind)

/-- Until a lexeme with a newline is taken, the position is the one in the source, and afterwards
the line is behind. -/
theorem InCall.sourcePosition_cases (hlocal : ∀ op ∈ ops, Local op.1.matcher)
    (haccept : (setInput t (some input)).1 = true)
    (h : InCall strtod ops (setInput t (some input)).2 s) :
    (NoNewlineTaken strtod ops (setInput t (some input)).2 s.input.position →
        s.position = truePosition input s.input.position) ∧
      (¬NoNewlineTaken strtod ops (setInput t (some input)).2 s.input.position →
        s.position.line < (truePosition input s.input.position).line) := by
  induction h with
  | refl =>
    have hstart : (setInput t (some input)).2.started.input.position = 0 ∧
        (setInput t (some input)).2.started.position = ⟨1, 1⟩ := by
      rw [setInput_accepted haccept]
      exact ⟨rfl, rfl⟩
    rw [hstart.1, hstart.2]
    have hnone : NoNewlineTaken strtod ops (setInput t (some input)).2 0 :=
      fun _ _ _ _ _ hlt => absurd hlt (Nat.not_lt_zero _)
    exact ⟨fun _ => rfl, fun hnot => absurd hnone hnot⟩
  | @tail s s' hs hround ih =>
    rw [noNewlineTaken_iff hs hround]
    obtain ⟨hle, hrest, -⟩ := InCall.rest hlocal haccept hs
    obtain ⟨v, hv⟩ := hrest.current
    cases hround with
    | skip inside hspace =>
      have hnone : ∀ op n, Takes ops s op n → newline ∉ s.current.take n := fun op n htakes => by
        rw [htakes.noSpace] at hspace
        cases hspace
      -- The byte of white space is the next one of the input.
      have hhead : (input.drop s.input.position).head? = some (byteAt s.current 0) := by
        rw [hv] at hspace ⊢
        cases hdrop : input.drop s.input.position with
        | nil => rw [hdrop] at hspace; cases hspace
        | cons b rest => rfl
      have htrue := skip_truePosition hhead
      constructor
      · rintro ⟨hbefore, -⟩
        show s.position.skip _ = _
        rw [ih.1 hbefore]
        exact htrue
      · intro hnot
        have hline := ih.2 fun hbefore => hnot ⟨hbefore, hnone⟩
        have hsame : ∀ p : SourcePosition, (p.skip (byteAt s.current 0)).line =
            p.line + if byteAt s.current 0 = newline then 1 else 0 := by
          intro p
          unfold SourcePosition.skip
          split_ifs <;> rfl
        show (s.position.skip _).line < (truePosition input (s.input.position + 1)).line
        rw [← htrue, hsame, hsame]
        omega
    | @take op n htakes hpos =>
      have hmatch := htakes.matched
      rw [hrest.firstMatch_eq hlocal] at hmatch
      have hn := (firstMatch_bounds hlocal hmatch).2
      have hlexeme : s.current.take n = (input.drop s.input.position).take n := by
        rw [hv]
        exact List.take_append_of_le_length hn
      constructor
      · rintro ⟨hbefore, hnow⟩
        have hnot := hnow op n htakes
        rw [hlexeme] at hnot
        show s.position.advance n = _
        rw [ih.1 hbefore]
        exact advance_truePosition hn hnot
      · intro hnot
        show s.position.line < (truePosition input (s.input.position + n)).line
        by_cases hbefore : NoNewlineTaken strtod ops (setInput t (some input)).2 s.input.position
        · have hmem : newline ∈ (input.drop s.input.position).take n := by
            by_contra hno
            refine hnot ⟨hbefore, fun op' n' htakes' => ?_⟩
            obtain ⟨rfl, rfl⟩ := htakes.unique htakes'
            rw [hlexeme]
            exact hno
          rw [ih.1 hbefore]
          exact line_lt_of_mem hmem
        · exact (ih.2 hbefore).trans_le (line_le_add _ _ _)

/-- The token that is stored in a state has the position of this state. -/
theorem Stores.position_eq (hops : BuiltIn ops) {token : PolycallToken}
    (h : Stores strtod ops t s token) :
    token.line = UInt32.ofNat s.position.line ∧ token.column = UInt32.ofNat s.position.column := by
  cases h.emits with
  | lexeme htakes =>
    rw [hops.makeToken (matcher_of_firstMatch htakes.matched).1]
    exact ⟨rfl, rfl⟩
  | eof => exact ⟨rfl, rfl⟩

/-- The position of a stored token is the one of its first character exactly when no lexeme with a
newline was taken before it, and its line and column fit 32 bits. -/
theorem Stores.position_iff (hops : BuiltIn ops) (haccept : (setInput t (some input)).1 = true)
    {token : PolycallToken} (h : Stores strtod ops (setInput t (some input)).2 s token) :
    (token.line.toNat = (truePosition input s.input.position).line ∧
        token.column.toNat = (truePosition input s.input.position).column) ↔
      NoNewlineTaken strtod ops (setInput t (some input)).2 s.input.position ∧
        (truePosition input s.input.position).line < 2 ^ 32 ∧
        (truePosition input s.input.position).column < 2 ^ 32 := by
  obtain ⟨hline, hcolumn⟩ := h.position_eq hops
  obtain ⟨htrue, hbehind⟩ := h.inCall.sourcePosition_cases hops.local haccept
  rw [hline, hcolumn, UInt32.toNat_ofNat', UInt32.toNat_ofNat']
  by_cases hnone : NoNewlineTaken strtod ops (setInput t (some input)).2 s.input.position
  · rw [htrue hnone, and_iff_right hnone]
    refine and_congr ⟨fun hmod => ?_, fun hlt => Nat.mod_eq_of_lt hlt⟩
      ⟨fun hmod => ?_, fun hlt => Nat.mod_eq_of_lt hlt⟩
    · rw [← hmod]
      exact Nat.mod_lt _ (by decide)
    · rw [← hmod]
      exact Nat.mod_lt _ (by decide)
  · have hlt := hbehind hnone
    have hmod := Nat.mod_le s.position.line (2 ^ 32)
    refine iff_of_false (fun hand => ?_) fun hand => hnone hand.1
    omega

end Call

/-- A call returns, and each token that it adds has the line and the column of its first character:
of the place at which the call was when it stored the token. -/
def PositionsTrue (strtod : Text → UInt64) (ops : TokenizerOperations) (t : PolycallTokenizer)
    (input : Text) : Prop :=
  ∃ result t', process strtod (setInput t (some input)).2 (some ops) = some (result, t') ∧
    ∀ k token, t.tokens.tokens.length ≤ k → t'.tokens.tokens[k]? = some token →
      ∃ s, Stores strtod ops (setInput t (some input)).2 s token ∧ s.tokens.tokens.length = k ∧
        token.line.toNat = (truePosition input s.input.position).line ∧
        token.column.toNat = (truePosition input s.input.position).column

/-- The tokens of an accepted input come behind those that the tokenizer had. -/
theorem tokens_setInput {t : PolycallTokenizer} {input : Text}
    (haccept : (setInput t (some input)).1 = true) :
    (setInput t (some input)).2.tokens = t.tokens := by
  rw [setInput_accepted haccept]
  rfl

/-- Where the positions are true, no lexeme with a newline was taken before a token. -/
theorem PositionsTrue.noNewlineTaken {strtod : Text → UInt64} {ops : TokenizerOperations}
    (hops : BuiltIn ops) {t s : PolycallTokenizer} {input : Text}
    (haccept : (setInput t (some input)).1 = true) (h : PositionsTrue strtod ops t input)
    {token : PolycallToken} (hs : Stores strtod ops (setInput t (some input)).2 s token) :
    NoNewlineTaken strtod ops (setInput t (some input)).2 s.input.position ∧
      (truePosition input s.input.position).line < 2 ^ 32 ∧
      (truePosition input s.input.position).column < 2 ^ 32 := by
  obtain ⟨result, t', hprocess, htrue⟩ := h
  have hk : t.tokens.tokens.length ≤ s.tokens.tokens.length := by
    rw [← tokens_setInput haccept]
    exact (tokens_prefix_of_reaches hs.inCall).length_le
  obtain ⟨s', hs', hlength, hposition⟩ :=
    htrue _ token hk (hs.getElem?_tokens (process_eq_some_iff.1 hprocess))
  obtain rfl := hs.unique hs' hlength.symm
  exact (hs.position_iff hops haccept).1 hposition

/-- The tokens that a call adds have true positions if and only if, for each of them, the call has
taken no lexeme with a newline before, and its line and column fit 32 bits. -/
theorem positionsTrue_iff (strtod : Text → UInt64) {ops : TokenizerOperations} (hops : BuiltIn ops)
    {t : PolycallTokenizer} {input : Text} (haccept : (setInput t (some input)).1 = true) :
    PositionsTrue strtod ops t input ↔
      ∀ s token, Stores strtod ops (setInput t (some input)).2 s token →
        NoNewlineTaken strtod ops (setInput t (some input)).2 s.input.position ∧
          (truePosition input s.input.position).line < 2 ^ 32 ∧
          (truePosition input s.input.position).column < 2 ^ 32 := by
  refine ⟨fun h s token hs => h.noNewlineTaken hops haccept hs, fun h => ?_⟩
  obtain ⟨result, t', hprocess⟩ := exists_process strtod hops.local haccept
  refine ⟨result, t', hprocess, fun k token hk htoken => ?_⟩
  rw [← tokens_setInput haccept] at hk
  obtain ⟨s, hs, hlength⟩ := exists_stores (process_eq_some_iff.1 hprocess) hk htoken
  exact ⟨s, hs, hlength, (hs.position_iff hops haccept).2 (h s token hs)⟩

/-- The tokens of a word that fills the buffer have true positions. -/
theorem positionsTrue_iff_word :
    PositionsTrue (fun _ => 0) matcherOperations smallTokenizer (lit "ab") := by
  refine (positionsTrue_iff (fun _ => 0) builtIn_matcherOperations rfl).2 fun s token hs => ?_
  let start := (setInput smallTokenizer (some (lit "ab"))).2.started
  have htakes : Takes matcherOperations start (⟨matchIdentifier, .identifier⟩, ⟨id, .invalid⟩) 2 :=
    ⟨by decide, rfl, rfl⟩
  -- The word is the only lexeme, and the buffer ends behind it.
  have hcases : ∀ r, InCall (fun _ => 0) matcherOperations _ r → r = start ∨ r = _ := fun r hr =>
    Walks.Machine.Reaches.eq_or_eq hr (Round.take htakes two_pos) (.full (by decide))
  refine ⟨fun r op n hr hr' _ => ?_, ?_⟩
  · rcases hcases r hr with rfl | rfl
    · obtain ⟨-, rfl⟩ := htakes.unique hr'
      decide
    · exact absurd hr'.inside (by decide)
  · rcases hcases s hs.inCall with rfl | rfl <;> decide

/-- A new tokenizer with a buffer of 16 bytes and room for 16 tokens. -/
def wordTokenizer : PolycallTokenizer :=
  ⟨⟨[], 16, 0⟩, ⟨1, 1⟩, ⟨.ready, none, 0⟩, .create 16⟩

/-- A string with a newline in it, and a word behind it. -/
def stringThenWord : Text := lit "\"a\nb\" c"

/-- The word is on line 2 of the input, and its token has line 1. -/
theorem newline_in_string_not_counted :
    create (some ⟨16, 1⟩) ⟨true, some [], true⟩ = .ok (some wordTokenizer) ∧
      (setInput wordTokenizer (some stringThenWord)).1 = true ∧ BuiltIn matcherOperations ∧
      (∃ result t', process (fun _ => 0) (setInput wordTokenizer (some stringThenWord)).2
          (some matcherOperations) = some (result, t') ∧
        t'.tokens.tokens.map (fun token => (token.type, token.line, token.column)) =
          [(.string, 1, 1), (.identifier, 1, 7)]) ∧
      ¬PositionsTrue (fun _ => 0) matcherOperations wordTokenizer stringThenWord := by
  refine ⟨rfl, rfl, builtIn_matcherOperations, ⟨_, _, rfl, by decide⟩, fun h => ?_⟩
  let start := (setInput wordTokenizer (some stringThenWord)).2.started
  let behind := start.take (fun _ => 0) (⟨matchString, .string⟩, ⟨id, .invalid⟩) 5
  have hstring : Takes matcherOperations start (⟨matchString, .string⟩, ⟨id, .invalid⟩) 5 :=
    ⟨by decide, rfl, rfl⟩
  have hreach : InCall (fun _ => 0) matcherOperations
      (setInput wordTokenizer (some stringThenWord)).2 (behind.skip 32) :=
    .tail (.tail .refl (.take hstring (by decide))) (.skip (by decide) rfl)
  have hidentifier : Takes matcherOperations (behind.skip 32)
      (⟨matchIdentifier, .identifier⟩, ⟨id, .invalid⟩) 1 := ⟨by decide, rfl, rfl⟩
  have hword : Stores (fun _ => 0) matcherOperations
      (setInput wordTokenizer (some stringThenWord)).2 (behind.skip 32) _ :=
    ⟨hreach, .lexeme hidentifier one_pos, Nat.succ_lt_succ (Nat.succ_pos 14)⟩
  have hnone := (h.noNewlineTaken builtIn_matcherOperations rfl hword).1
  exact hnone start _ 5 .refl hstring (by decide) (by decide)

end LibPolyCall.Tokenizer
