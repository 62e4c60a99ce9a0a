import LibPolyCall.Tokenizer.Rounds

/-!
# Reading inside the input

The matchers of `polycall_tokenizer.c` again, on a memory that ends somewhere: they read one
character after the other, and `none` says that one of them would lie outside. On a memory that ends
with a terminator no character does, whatever is in front (`reader_eq`). With it `scansInside` says
of a whole call that it ends, and never leaves the input.
-/

namespace LibPolyCall.Tokenizer

open Scan

/-! ## The matchers, character by character -/

/-- `while (p(input[pos])) pos++`, from the start of a memory: the number of its steps. -/
def readRun (p : UInt8 → Bool) : Text → Option ℕ
  | [] => none
  | b :: memory => if p b then (readRun p memory).map (· + 1) else some 0

/-- `polycall_tokenizer_match_identifier`. -/
def readIdentifier (memory : Text) : Option (Option ℕ) := do
  let first ← memory[0]?
  if isIdentifierStart first then
    let part ← readRun isIdentifierPart (memory.drop 1)
    return some (1 + part)
  else return none

/-- At a decimal point: the position behind it and its digits. -/
def readFraction (memory : Text) (pos : ℕ) : Option (Option ℕ) := do
  let b ← memory[pos]?
  if b = point then
    let next ← memory[pos + 1]?
    if isDigit next then
      let digits ← readRun isDigit (memory.drop (pos + 1))
      return some (pos + 1 + digits)
    else return none
  else return some pos

/-- At an `'e'` or `'E'`: the position behind the exponent. -/
def readExponent (memory : Text) (pos : ℕ) : Option (Option ℕ) := do
  let b ← memory[pos]?
  if (b = 101 ∨ b = 69) ∧ 0 < pos then
    let sign ← memory[pos + 1]?
    let expPos := if isSign sign then pos + 1 + 1 else pos + 1
    let digit ← memory[expPos]?
    if isDigit digit then
      let digits ← readRun isDigit (memory.drop expPos)
      return some (expPos + digits)
    else return none
  else return some pos

/-- `polycall_tokenizer_match_number`. -/
def readNumber (memory : Text) : Option (Option ℕ) := do
  let sign ← memory[0]?
  let pos := if isSign sign then 1 else 0
  let digit ← memory[pos]?
  if isDigit digit then
    let digits ← readRun isDigit (memory.drop pos)
    match ← readFraction memory (pos + digits) with
    | some pos => readExponent memory pos
    | none => return none
  else return none

/-- The loop of `polycall_tokenizer_match_string`: the number of bytes in front of the closing
quote. -/
def readQuote : Bool → Text → Option (Option ℕ)
  | _, [] => none
  | escaped, b :: memory =>
    if b = nul then some none
    else if escaped ∨ b ≠ quote then
      (readQuote (!escaped && b = backslash) memory).map fun found => found.map (· + 1)
    else some (some 0)

/-- `polycall_tokenizer_match_string`. -/
def readString (memory : Text) : Option (Option ℕ) := do
  let first ← memory[0]?
  if first = quote then
    let found ← readQuote false (memory.drop 1)
    return found.map (· + 2)
  else return none

/-- `strncmp(input, op, strlen(op)) == 0`. -/
def readPrefix : Text → Text → Option Bool
  | [], _ => some true
  | _ :: _, [] => none
  | c :: op, b :: memory => if b = c then readPrefix op memory else some false

/-- The loop of `polycall_tokenizer_match_operator`. -/
def readOperators (memory : Text) : List Text → Option (Option ℕ)
  | [] => some none
  | op :: ops => do
    if ← readPrefix op memory then return some op.length else readOperators memory ops

/-- `polycall_tokenizer_match_operator`. -/
def readOperator (memory : Text) : Option (Option ℕ) := readOperators memory operators

/-- The built-in matchers, and how they read. -/
def builtInReaders : List ((Text → Option ℕ) × (Text → Option (Option ℕ))) :=
  [(matchIdentifier, readIdentifier), (matchNumber, readNumber), (matchString, readString),
    (matchOperator, readOperator)]

/-! ## No character outside -/

section Readers

variable {u : Text} {i : ℕ}

/-- The characters of a text and its terminator are in the memory. -/
theorem getElem?_terminated (hi : i ≤ u.length) : (u ++ [nul])[i]? = some (byteAt u i) := by
  rw [← byteAt_append hi [], byteAt, List.getD_eq_getElem?_getD]
  have hlt : i < (u ++ [nul]).length := by
    rw [List.length_append, List.length_singleton]
    omega
  rw [List.getElem?_eq_getElem hlt, Option.getD_some]

/-- A run ends in front of the terminator. -/
theorem readRun_terminated {p : UInt8 → Bool} (hp : p nul = false) (hi : i ≤ u.length) :
    readRun p ((u ++ [nul]).drop i) = some (run p u i) := by
  rw [List.drop_append_of_le_length hi, run]
  generalize u.drop i = w
  -- The loop stops at the terminator if not before.
  induction w with
  | nil => rw [List.nil_append, readRun, hp]; rfl
  | cons b w ih =>
    rw [List.cons_append, readRun, ih]
    by_cases hb : p b = true
    · rw [if_pos hb, List.takeWhile_cons_of_pos hb]
      rfl
    · rw [if_neg hb, List.takeWhile_cons_of_neg hb]
      rfl

/-- An identifier is matched without reading behind the terminator. -/
theorem readIdentifier_terminated (u : Text) :
    readIdentifier (u ++ [nul]) = some (matchIdentifier u) := by
  rw [readIdentifier, getElem?_terminated (Nat.zero_le _), matchIdentifier]
  simp only [Option.bind_eq_bind, Option.bind_some, Option.pure_def]
  split_ifs with hstart
  · have hle : 1 ≤ u.length := lt_length_of_byteAt isIdentifierStart rfl hstart
    rw [readRun_terminated rfl hle, Option.bind_some]
  · rfl

/-- Nor is more read for a fraction. -/
theorem readFraction_terminated (hi : i ≤ u.length) :
    readFraction (u ++ [nul]) i = some (matchFraction u i) := by
  rw [readFraction, getElem?_terminated hi, matchFraction]
  simp only [Option.bind_eq_bind, Option.bind_some, Option.pure_def]
  by_cases hpoint : byteAt u i = point
  · have hle : i + 1 ≤ u.length :=
      lt_length_of_byteAt (fun b => decide (b = point)) rfl (decide_eq_true hpoint)
    rw [if_pos hpoint, if_pos hpoint, getElem?_terminated hle, Option.bind_some,
      readRun_terminated rfl hle, Option.bind_some]
    split_ifs <;> rfl
  · rw [if_neg hpoint, if_neg hpoint]

/-- Nor for an exponent. -/
theorem readExponent_terminated (hi : i ≤ u.length) :
    readExponent (u ++ [nul]) i = some (matchExponent u i) := by
  rw [readExponent, getElem?_terminated hi, matchExponent]
  simp only [Option.bind_eq_bind, Option.bind_some, Option.pure_def]
  by_cases hexp : (byteAt u i = 101 ∨ byteAt u i = 69) ∧ 0 < i
  · obtain ⟨hle, hle'⟩ := exponent_le hexp
    rw [if_pos hexp, if_pos hexp, getElem?_terminated hle, Option.bind_some,
      getElem?_terminated hle', Option.bind_some, readRun_terminated rfl hle', Option.bind_some]
    split_ifs <;> rfl
  · rw [if_neg hexp, if_neg hexp]

/-- A number is matched without reading behind the terminator. -/
theorem readNumber_terminated (u : Text) : readNumber (u ++ [nul]) = some (matchNumber u) := by
  have hle := number_le u
  rw [readNumber, getElem?_terminated (Nat.zero_le _), matchNumber]
  simp only [Option.bind_eq_bind, Option.bind_some, Option.pure_def]
  generalize (if isSign (byteAt u 0) = true then 1 else 0) = pos at *
  have hrun := add_run_le (p := isDigit) hle
  rw [getElem?_terminated hle, Option.bind_some, readRun_terminated rfl hle, Option.bind_some,
    readFraction_terminated hrun, Option.bind_some]
  split_ifs
  · cases hfraction : matchFraction u (pos + run isDigit u pos) with
    | none => rfl
    | some q => exact readExponent_terminated (matchFraction_bounds hrun hfraction).2
  · rfl

/-- The closing quote is looked for in front of the terminator. -/
theorem readQuote_terminated (escaped : Bool) (u : Text) :
    readQuote escaped (u ++ [nul]) = some (closingQuote escaped u) := by
  induction u generalizing escaped with
  | nil => rfl
  | cons b u ih =>
    rw [List.cons_append, readQuote, closingQuote, ih]
    split_ifs <;> rfl

/-- A string is matched without reading behind the terminator. -/
theorem readString_terminated (u : Text) : readString (u ++ [nul]) = some (matchString u) := by
  rw [readString, getElem?_terminated (Nat.zero_le _), matchString]
  simp only [Option.bind_eq_bind, Option.bind_some, Option.pure_def]
  by_cases hquote : byteAt u 0 = quote
  · have hle : 1 ≤ u.length :=
      lt_length_of_byteAt (fun b => decide (b = quote)) rfl (decide_eq_true hquote)
    rw [if_pos hquote, if_pos hquote, List.drop_append_of_le_length hle, readQuote_terminated,
      Option.bind_some]
  · rw [if_neg hquote, if_neg hquote]

/-- A comparison with an operator stops at the terminator. -/
theorem readPrefix_terminated {op : Text} (hop : nul ∉ op) (u : Text) :
    readPrefix op (u ++ [nul]) = some (decide (op <+: u)) := by
  induction op generalizing u with
  | nil => simp [readPrefix]
  | cons c op ih =>
    rw [List.mem_cons, not_or] at hop
    cases u with
    | nil =>
      rw [List.nil_append, readPrefix, if_neg hop.1]
      simp
    | cons b u =>
      rw [List.cons_append, readPrefix, ih hop.2]
      by_cases hbc : b = c
      · subst hbc
        rw [if_pos rfl]
        simp [List.cons_prefix_cons]
      · rw [if_neg hbc]
        simp [List.cons_prefix_cons, Ne.symm hbc]

/-- The operators are compared without reading behind the terminator. -/
theorem readOperators_terminated (u : Text) : ∀ {ops : List Text}, (∀ op ∈ ops, nul ∉ op) →
    readOperators (u ++ [nul]) ops = some ((ops.find? fun op => op <+: u).map List.length)
  | [], _ => rfl
  | op :: ops, hops => by
    rw [List.forall_mem_cons] at hops
    rw [readOperators, readPrefix_terminated hops.1, readOperators_terminated u hops.2,
      List.find?_cons]
    simp only [Option.bind_eq_bind, Option.bind_some, Option.pure_def]
    by_cases hstart : op <+: u
    · simp [hstart]
    · simp [hstart]

/-- Each built-in matcher finds its result in a memory that ends with a terminator. -/
theorem reader_eq {reader : (Text → Option ℕ) × (Text → Option (Option ℕ))}
    (h : reader ∈ builtInReaders) (u : Text) : reader.2 (u ++ [nul]) = some (reader.1 u) := by
  simp only [builtInReaders, List.mem_cons, List.not_mem_nil, or_false] at h
  rcases h with rfl | rfl | rfl | rfl
  · exact readIdentifier_terminated u
  · exact readNumber_terminated u
  · exact readString_terminated u
  · exact readOperators_terminated u fun op hop => (operator_of_mem op hop).2

end Readers

/-! ## A call on an accepted input -/

section Call

variable {strtod : Text → UInt64} {ops : TokenizerOperations} {t s : PolycallTokenizer}
  {input : Text}

/-- In a call with matchers that stop at the terminator, what is left of the input is left in the
buffer. -/
theorem InCall.rest (hlocal : ∀ op ∈ ops, Local op.1.matcher)
    (haccept : (setInput t (some input)).1 = true)
    (h : InCall strtod ops (setInput t (some input)).2 s) :
    s.input.position ≤ input.length ∧ s.Rest (input.drop s.input.position) ∧
      s.input.buffer = (t.scanning input).input.buffer := by
  induction h with
  | refl =>
    rw [setInput_accepted haccept]
    refine ⟨Nat.zero_le _, ⟨⟨_, List.drop_zero⟩, ?_⟩, rfl⟩
    exact (Nat.zero_add _).trans_le (setInput_iff.1 haccept).2
  | @tail s s' hreach hround ih =>
    obtain ⟨hle, hrest, hbuffer⟩ := ih
    -- The round moves on by some characters of what is left.
    obtain ⟨n, hn, hinput⟩ : ∃ n, n ≤ (input.drop s.input.position).length ∧
        s'.input = { s.input with position := s.input.position + n } := by
      cases hround with
      | skip inside hspace =>
        refine ⟨1, ?_, rfl⟩
        by_contra hnone
        have hnil : input.drop s.input.position = [] := by
          rw [← List.length_eq_zero_iff]
          omega
        obtain ⟨v, hv⟩ := hrest.current
        rw [hv, hnil] at hspace
        cases hspace
      | @take op n htakes hpos =>
        have hmatch := htakes.matched
        rw [hrest.firstMatch_eq hlocal] at hmatch
        exact ⟨n, (firstMatch_bounds hlocal hmatch).2, rfl⟩
    have hposition : s'.input.position = s.input.position + n := by rw [hinput]
    refine ⟨?_, ?_, by rw [hinput]; exact hbuffer⟩
    · rw [List.length_drop] at hn
      omega
    · rw [hposition, ← List.drop_drop]
      exact hrest.drop hn hinput

/-- A call with matchers that stop at the terminator returns. -/
theorem exists_process (strtod : Text → UInt64) (hlocal : ∀ op ∈ ops, Local op.1.matcher)
    (haccept : (setInput t (some input)).1 = true) :
    ∃ result t', process strtod (setInput t (some input)).2 (some ops) = some (result, t') := by
  obtain ⟨ls, r, q, hscan⟩ := exists_scan hlocal input
  exact ⟨_, _, process_of_scans strtod hlocal haccept hscan⟩

/-- A call on an input of length `L` ends, takes lexemes of at least one character that end at `L`
or before, never moves its position behind `L`, and lets no matcher read behind the terminator at
`L`. -/
structure ScansInside (strtod : Text → UInt64) (ops : TokenizerOperations) (t : PolycallTokenizer)
    (input : Text) : Prop where
  terminates : ∃ result t',
    process strtod (setInput t (some input)).2 (some ops) = some (result, t') ∧
      t'.input.position ≤ input.length
  position : ∀ s, InCall strtod ops (setInput t (some input)).2 s →
    s.input.position ≤ input.length
  lexemes : ∀ s op n, InCall strtod ops (setInput t (some input)).2 s → Takes ops s op n →
    1 ≤ n ∧ s.input.position + n ≤ input.length
  reads : ∀ s, InCall strtod ops (setInput t (some input)).2 s → ∀ reader ∈ builtInReaders,
    reader.2 ((s.input.buffer.take (input.length + 1)).drop s.input.position) =
      some (reader.1 s.current)

/-- A call of `polycall_tokenizer_process` with built-in matchers, on an input that
`polycall_tokenizer_set_input` has accepted, stays inside the input. -/
theorem scansInside (strtod : Text → UInt64) {ops : TokenizerOperations}
    (hops : ∀ op ∈ ops, op.1.matcher ∈ builtInMatchers) {t : PolycallTokenizer} {input : Text}
    (haccept : (setInput t (some input)).1 = true) : ScansInside strtod ops t input := by
  have hlocal : ∀ op ∈ ops, Local op.1.matcher := fun op hop =>
    local_of_mem_builtInMatchers (hops op hop)
  -- The position never leaves the input.
  have hposition : ∀ s, InCall strtod ops (setInput t (some input)).2 s →
      s.input.position ≤ input.length := fun s hs => (hs.rest hlocal haccept).1
  refine ⟨?_, hposition, fun s op n hs htakes => ?_, fun s hs reader hreader => ?_⟩
  · obtain ⟨result, t', hprocess⟩ := exists_process strtod hlocal haccept
    refine ⟨result, t', hprocess, ?_⟩
    obtain ⟨last, hlast, hends⟩ := process_eq_some_iff.1 hprocess
    have hle := hposition last hlast
    cases hends with
    | full => exact hle
    | stuck => exact hle
  · obtain ⟨hle, hrest, -⟩ := hs.rest hlocal haccept
    have hmatch := htakes.matched
    rw [hrest.firstMatch_eq hlocal] at hmatch
    obtain ⟨hpos, hn⟩ := firstMatch_bounds hlocal hmatch
    rw [List.length_drop] at hn
    omega
  · obtain ⟨hle, hrest, hbuffer⟩ := hs.rest hlocal haccept
    obtain ⟨v, hv⟩ := hrest.current
    -- Of the buffer, only the rest of the input and its terminator are read.
    have hmemory : (s.input.buffer.take (input.length + 1)).drop s.input.position =
        input.drop s.input.position ++ [nul] := by
      rw [hbuffer, ← List.drop_append_of_le_length hle]
      show ((input ++ nul :: t.input.buffer.drop (input.length + 1)).take _).drop _ = _
      rw [List.take_append, List.take_of_length_le (Nat.le_succ _), Nat.add_sub_cancel_left]
      rfl
    have hstops : reader.1 s.current = reader.1 (input.drop s.input.position) := by
      rw [hv]
      exact (local_of_mem_builtInMatchers (List.mem_map_of_mem hreader)).stops _ v
    rw [hmemory, hstops]
    exact reader_eq hreader _

end Call

/-- A word that fills the buffer. -/
theorem scansInside_word :
    ScansInside (fun _ => 0) matcherOperations smallTokenizer (lit "ab") :=
  scansInside (fun _ => 0) (fun op hop => (builtIn_matcherOperations op hop).1) rfl

end LibPolyCall.Tokenizer
