import LibPolyCall.Tokenizer.Token
import Mathlib.Data.List.Find
import Mathlib.Data.List.GetD

/-!
# The pattern matchers

The four matchers of `polycall_tokenizer.c`. A matcher is given the text from the scan position on,
and returns the length of the lexeme that the text starts with. The terminator is read past the end
of a text, and a text may hold others. The matchers do not look behind the first terminator that
they meet and never take it (`Local`), so what follows the input in the buffer does not matter.
-/

namespace LibPolyCall.Tokenizer

open Scan

/-- The number of steps of `while (p(input[pos])) pos++`. -/
def run (p : UInt8 → Bool) (input : Text) (pos : ℕ) : ℕ := ((input.drop pos).takeWhile p).length

/-- `isalpha`. -/
def isAlpha (b : UInt8) : Bool := (65 ≤ b && b ≤ 90) || (97 ≤ b && b ≤ 122)

/-- `is_identifier_start`: a letter or `'_'`. -/
def isIdentifierStart (b : UInt8) : Bool := isAlpha b || b = 95

/-- `is_identifier_part`. -/
def isIdentifierPart (b : UInt8) : Bool := isAlnum b || b = 95

/-- `polycall_tokenizer_match_identifier`. -/
def matchIdentifier (input : Text) : Option ℕ :=
  if isIdentifierStart (byteAt input 0) then some (1 + run isIdentifierPart input 1) else none

/-- `input[pos] == '+' || input[pos] == '-'`. -/
def isSign (b : UInt8) : Bool := b = 43 || b = 45

/-- `'.'`. -/
def point : UInt8 := 46

/-- At a decimal point: the position behind it and its digits. -/
def matchFraction (input : Text) (pos : ℕ) : Option ℕ :=
  if byteAt input pos = point then
    if isDigit (byteAt input (pos + 1)) then some (pos + 1 + run isDigit input (pos + 1)) else none
  else some pos

/-- At an `'e'` or `'E'`: the position behind the exponent. -/
def matchExponent (input : Text) (pos : ℕ) : Option ℕ :=
  if (byteAt input pos = 101 ∨ byteAt input pos = 69) ∧ 0 < pos then
    let expPos := if isSign (byteAt input (pos + 1)) then pos + 1 + 1 else pos + 1
    if isDigit (byteAt input expPos) then some (expPos + run isDigit input expPos) else none
  else some pos

/-- `polycall_tokenizer_match_number`. -/
def matchNumber (input : Text) : Option ℕ :=
  let pos := if isSign (byteAt input 0) then 1 else 0
  if isDigit (byteAt input pos) then
    (matchFraction input (pos + run isDigit input pos)).bind (matchExponent input)
  else none

/-- `'"'`. -/
def quote : UInt8 := 34

/-- `'\\'`. -/
def backslash : UInt8 := 92

/-- The number of bytes in front of the closing quote. -/
def closingQuote : Bool → Text → Option ℕ
  | _, [] => none
  | escaped, b :: input =>
    if b = nul then none
    else if escaped ∨ b ≠ quote then
      (closingQuote (!escaped && b = backslash) input).map (· + 1)
    else some 0

/-- `polycall_tokenizer_match_string`. -/
def matchString (input : Text) : Option ℕ :=
  if byteAt input 0 = quote then (closingQuote false (input.drop 1)).map (· + 2) else none

/-- `operators`. -/
def operators : List Text :=
  ["++", "--", "+=", "-=", "*=", "/=", "==", "!=", ">=", "<=", "&&", "||", "+", "-", "*", "/", "%",
    "=", "<", ">", "!", "&", "|"].map lit

/-- `polycall_tokenizer_match_operator`: `strncmp` finds the operator at the start of the text. -/
def matchOperator (input : Text) : Option ℕ :=
  (operators.find? fun op => op <+: input).map List.length

/-! ## Reading up to the terminator -/

/-- A matcher that does not look behind a terminator, and whose lexemes are not empty and end
before it. -/
structure Local (matcher : Text → Option ℕ) : Prop where
  stops : ∀ u v, matcher (u ++ nul :: v) = matcher u
  pos : ∀ u n, matcher u = some n → 0 < n
  le : ∀ u n, matcher u = some n → n ≤ u.length

/-- Up to the terminator the bytes are those of the text. -/
theorem byteAt_append {u : Text} {i : ℕ} (hi : i ≤ u.length) (v : Text) :
    byteAt (u ++ nul :: v) i = byteAt u i := by
  unfold byteAt
  rcases hi.lt_or_eq with hlt | rfl
  · rw [List.getD_append _ _ _ _ hlt]
  · -- At the end of the text the terminator is read, from the buffer or as the default.
    rw [List.getD_append_right _ _ _ _ le_rfl, Nat.sub_self, List.getD_eq_default _ _ le_rfl]
    rfl

/-- Behind a text a terminator is read. -/
theorem byteAt_of_le {u : Text} {i : ℕ} (hi : u.length ≤ i) : byteAt u i = nul :=
  List.getD_eq_default _ _ hi

/-- What a matcher accepts is a byte of the text. -/
theorem lt_length_of_byteAt {u : Text} {i : ℕ} (p : UInt8 → Bool) (hp : p nul = false)
    (h : p (byteAt u i) = true) : i < u.length := by
  by_contra hi
  rw [byteAt_of_le (not_lt.1 hi), hp] at h
  cases h

/-- The byte at a position of a text. -/
theorem head?_drop_eq_some_iff {t : Text} {i : ℕ} {b : UInt8} (hb : b ≠ nul) :
    (t.drop i).head? = some b ↔ byteAt t i = b := by
  rw [List.head?_drop, byteAt, List.getD_eq_getElem?_getD]
  cases t[i]? with
  | none => exact iff_of_false nofun fun h => hb h.symm
  | some c => exact Option.some_inj

/-- The digit at a position of a text. -/
theorem head?_drop_of_digit {t : Text} {i : ℕ} (h : isDigit (byteAt t i) = true) :
    (t.drop i).head? = some (byteAt t i) := by
  refine (head?_drop_eq_some_iff fun hnul => ?_).2 rfl
  rw [hnul] at h
  cases h

/-- A run does not look behind a terminator that ends it. -/
theorem run_append {p : UInt8 → Bool} (hp : p nul = false) {u : Text} {i : ℕ} (hi : i ≤ u.length)
    (v : Text) : run p (u ++ nul :: v) i = run p u i := by
  unfold run
  rw [List.drop_append_of_le_length hi]
  generalize u.drop i = w
  -- The run of the text ends at the terminator if not before.
  induction w with
  | nil => rw [List.nil_append, List.takeWhile_cons_of_neg (by simp [hp]), List.takeWhile_nil]
  | cons b w ih =>
    by_cases hb : p b = true
    · rw [List.cons_append, List.takeWhile_cons_of_pos hb, List.takeWhile_cons_of_pos hb,
        List.length_cons, List.length_cons, ih]
    · rw [List.cons_append, List.takeWhile_cons_of_neg hb, List.takeWhile_cons_of_neg hb]

/-- A run does not leave the text. -/
theorem add_run_le {p : UInt8 → Bool} {u : Text} {i : ℕ} (hi : i ≤ u.length) :
    i + run p u i ≤ u.length := by
  have hrun : run p u i ≤ (u.drop i).length := (List.takeWhile_sublist _).length_le
  rw [List.length_drop] at hrun
  omega

/-- The identifiers have a local matcher. -/
theorem local_matchIdentifier : Local matchIdentifier := by
  have hstart : ∀ u, isIdentifierStart (byteAt u 0) = true → 1 ≤ u.length := fun u h =>
    lt_length_of_byteAt isIdentifierStart rfl h
  constructor
  · intro u v
    unfold matchIdentifier
    rw [byteAt_append (Nat.zero_le _)]
    split_ifs with h
    · rw [run_append rfl (hstart u h)]
    · rfl
  · intro u n h
    unfold matchIdentifier at h
    split_ifs at h
    rw [Option.some_inj] at h
    omega
  · intro u n h
    unfold matchIdentifier at h
    split_ifs at h with hs
    rw [Option.some_inj] at h
    rw [← h]
    exact add_run_le (hstart u hs)

/-- A fraction is matched without a look behind the terminator. -/
theorem matchFraction_append {u : Text} {pos : ℕ} (hpos : pos ≤ u.length) (v : Text) :
    matchFraction (u ++ nul :: v) pos = matchFraction u pos := by
  unfold matchFraction
  rw [byteAt_append hpos]
  by_cases hpoint : byteAt u pos = point
  · have hlt : pos + 1 ≤ u.length :=
      lt_length_of_byteAt (fun b => decide (b = point)) rfl (decide_eq_true hpoint)
    rw [byteAt_append hlt, run_append rfl hlt]
  · rw [if_neg hpoint, if_neg hpoint]

/-- A fraction goes on from its position and does not leave the text. -/
theorem matchFraction_bounds {u : Text} {pos q : ℕ} (hpos : pos ≤ u.length)
    (h : matchFraction u pos = some q) : pos ≤ q ∧ q ≤ u.length := by
  unfold matchFraction at h
  split_ifs at h with hpoint hdigit
  · have hlt : pos + 1 ≤ u.length :=
      lt_length_of_byteAt (fun b => decide (b = point)) rfl (decide_eq_true hpoint)
    have hrun := add_run_le (p := isDigit) hlt
    rw [Option.some_inj] at h
    omega
  · rw [Option.some_inj] at h
    omega

/-- The byte at an exponent is in the text, and so is the sign behind it. -/
theorem exponent_le {u : Text} {pos : ℕ}
    (hexp : (byteAt u pos = 101 ∨ byteAt u pos = 69) ∧ 0 < pos) :
    pos + 1 ≤ u.length ∧
      (if isSign (byteAt u (pos + 1)) = true then pos + 1 + 1 else pos + 1) ≤ u.length := by
  have hlt : pos < u.length :=
    lt_length_of_byteAt (fun b => decide (b = 101 ∨ b = 69)) rfl (decide_eq_true hexp.1)
  refine ⟨hlt, ?_⟩
  split_ifs with hsign
  · exact lt_length_of_byteAt isSign rfl hsign
  · exact hlt

/-- An exponent is matched without a look behind the terminator. -/
theorem matchExponent_append {u : Text} {pos : ℕ} (hpos : pos ≤ u.length) (v : Text) :
    matchExponent (u ++ nul :: v) pos = matchExponent u pos := by
  unfold matchExponent
  rw [byteAt_append hpos]
  by_cases hexp : (byteAt u pos = 101 ∨ byteAt u pos = 69) ∧ 0 < pos
  · obtain ⟨hlt, hle⟩ := exponent_le hexp
    dsimp only
    rw [byteAt_append hlt, byteAt_append hle, run_append rfl hle]
  · rw [if_neg hexp, if_neg hexp]

/-- An exponent goes on from its position and does not leave the text. -/
theorem matchExponent_bounds {u : Text} {pos q : ℕ} (hpos : pos ≤ u.length)
    (h : matchExponent u pos = some q) : pos ≤ q ∧ q ≤ u.length := by
  unfold matchExponent at h
  by_cases hexp : (byteAt u pos = 101 ∨ byteAt u pos = 69) ∧ 0 < pos
  · obtain ⟨-, hle⟩ := exponent_le hexp
    rw [if_pos hexp] at h
    dsimp only at h
    have hsign : pos ≤ if isSign (byteAt u (pos + 1)) = true then pos + 1 + 1 else pos + 1 := by
      split_ifs <;> omega
    generalize (if isSign (byteAt u (pos + 1)) = true then pos + 1 + 1 else pos + 1) = e at *
    have hrun := add_run_le (p := isDigit) hle
    split_ifs at h
    rw [Option.some_inj] at h
    omega
  · rw [if_neg hexp, Option.some_inj] at h
    omega

/-- The optional sign of a number and its first digits. -/
theorem number_le (u : Text) : (if isSign (byteAt u 0) = true then 1 else 0) ≤ u.length := by
  split_ifs with hsign
  · exact lt_length_of_byteAt isSign rfl hsign
  · exact Nat.zero_le _

/-- A number is not empty and does not leave the text. -/
theorem matchNumber_bounds {u : Text} {n : ℕ} (h : matchNumber u = some n) :
    0 < n ∧ n ≤ u.length := by
  have hle := number_le u
  unfold matchNumber at h
  generalize (if isSign (byteAt u 0) = true then 1 else 0) = pos at *
  dsimp only at h
  split_ifs at h with hdigit
  obtain ⟨q, hfraction, hexponent⟩ := Option.bind_eq_some_iff.1 h
  have hrun : 0 < run isDigit u pos := by
    -- The digit that was looked at is in the run.
    have hlt : pos < u.length := lt_length_of_byteAt isDigit rfl hdigit
    unfold byteAt at hdigit
    rw [List.getD_eq_getElem _ _ hlt] at hdigit
    unfold run
    rw [List.drop_eq_getElem_cons hlt, List.takeWhile_cons_of_pos hdigit]
    exact Nat.succ_pos _
  obtain ⟨hq, hqle⟩ := matchFraction_bounds (add_run_le hle) hfraction
  obtain ⟨hn, hnle⟩ := matchExponent_bounds hqle hexponent
  omega

/-- The numbers have a local matcher. -/
theorem local_matchNumber : Local matchNumber := by
  refine ⟨fun u v => ?_, fun u n h => (matchNumber_bounds h).1,
    fun u n h => (matchNumber_bounds h).2⟩
  have hle := number_le u
  unfold matchNumber
  rw [byteAt_append (Nat.zero_le _)]
  generalize (if isSign (byteAt u 0) = true then 1 else 0) = pos at *
  dsimp only
  have hrun := add_run_le (p := isDigit) hle
  rw [byteAt_append hle, run_append rfl hle, matchFraction_append hrun]
  split_ifs
  · refine Option.bind_congr fun q hq => ?_
    exact matchExponent_append (matchFraction_bounds hrun hq).2 v
  · rfl

/-- The closing quote is looked for in front of the terminator. -/
theorem closingQuote_append (escaped : Bool) (u v : Text) :
    closingQuote escaped (u ++ nul :: v) = closingQuote escaped u := by
  induction u generalizing escaped with
  | nil => rfl
  | cons b u ih =>
    rw [List.cons_append, closingQuote, closingQuote, ih]

/-- The closing quote lies in the text. -/
theorem closingQuote_lt {escaped : Bool} {u : Text} {n : ℕ} (h : closingQuote escaped u = some n) :
    n < u.length := by
  induction u generalizing escaped n with
  | nil => cases h
  | cons b u ih =>
    rw [closingQuote] at h
    rw [List.length_cons]
    split_ifs at h
    · obtain ⟨m, hm, rfl⟩ := Option.map_eq_some_iff.1 h
      exact Nat.succ_lt_succ (ih hm)
    · rw [Option.some_inj] at h
      omega

/-- The strings have a local matcher. -/
theorem local_matchString : Local matchString := by
  have hquote : ∀ u, byteAt u 0 = quote → 0 < u.length := fun u h =>
    lt_length_of_byteAt (fun b => decide (b = quote)) rfl (decide_eq_true h)
  have hbounds : ∀ u n, matchString u = some n → 0 < n ∧ n ≤ u.length := by
    intro u n h
    unfold matchString at h
    split_ifs at h with hq
    obtain ⟨m, hm, rfl⟩ := Option.map_eq_some_iff.1 h
    have hlt := closingQuote_lt hm
    rw [List.length_drop] at hlt
    omega
  refine ⟨fun u v => ?_, fun u n h => (hbounds u n h).1, fun u n h => (hbounds u n h).2⟩
  unfold matchString
  rw [byteAt_append (Nat.zero_le _)]
  split_ifs with hq
  · rw [List.drop_append_of_le_length (hquote u hq), closingQuote_append]
  · rfl

/-- An operator is not empty and holds no terminator. -/
theorem operator_of_mem : ∀ op ∈ operators, op ≠ [] ∧ nul ∉ op := by decide

/-- The operators have a local matcher. -/
theorem local_matchOperator : Local matchOperator := by
  have hfound : ∀ u n, matchOperator u = some n → ∃ op ∈ operators, op <+: u ∧ op.length = n := by
    intro u n h
    obtain ⟨op, hop, hlen⟩ := Option.map_eq_some_iff.1 h
    exact ⟨op, List.mem_of_find?_eq_some hop, by simpa using List.find?_some hop, hlen⟩
  constructor
  · intro u v
    unfold matchOperator
    -- No operator reaches past the terminator, so the same ones match.
    have hsame : ∀ op ∈ operators, (op <+: u ++ nul :: v ↔ op <+: u) := fun op hop =>
      ⟨prefix_of_prefix_append_cons (operator_of_mem op hop).2,
        fun h => h.trans (List.prefix_append _ _)⟩
    congr 1
    exact List.find?_congr fun op hop => decide_eq_decide.2 (hsame op hop)
  · intro u n h
    obtain ⟨op, hop, -, rfl⟩ := hfound u n h
    exact List.length_pos_iff.2 (operator_of_mem op hop).1
  · intro u n h
    obtain ⟨op, -, hprefix, rfl⟩ := hfound u n h
    exact hprefix.length_le

/-- The built-in matchers. -/
def builtInMatchers : List (Text → Option ℕ) :=
  [matchIdentifier, matchNumber, matchString, matchOperator]

/-- The built-in matchers are local. -/
theorem local_of_mem_builtInMatchers {matcher : Text → Option ℕ} (h : matcher ∈ builtInMatchers) :
    Local matcher := by
  simp only [builtInMatchers, List.mem_cons, List.not_mem_nil, or_false] at h
  rcases h with rfl | rfl | rfl | rfl
  · exact local_matchIdentifier
  · exact local_matchNumber
  · exact local_matchString
  · exact local_matchOperator

end LibPolyCall.Tokenizer
