import LibPolyCall.Library.Doubles
import LibPolyCall.Tokenizer.Rounds

/-!
# What a number token means

`polycall_tokenizer_match_number` finds where a number ends, and `create_token` computes its value
from the whole text that starts there: with `strtod` if there is a point anywhere in this text, and
with `strtoll` otherwise. The lexeme is what `strtod` takes of the text (`subject_of_matchNumber`).
`numbersMeant_iff` says when the tokens of a call have the values that their lexemes mean.
-/

namespace LibPolyCall.Tokenizer

open Scan

/-! ## The lexeme -/

section Lexeme

variable {t : Text} {i n : ℕ} {b : UInt8}

/-- The sign that the matcher skips is the one of `strtod`. -/
theorem signLength_eq (t : Text) :
    (if isSign (byteAt t 0) = true then 1 else 0) = signLength t := by
  have h45 : byteAt t 0 = 45 ↔ t.head? = some 45 := (head?_drop_eq_some_iff (by decide)).symm
  have h43 : byteAt t 0 = 43 ↔ t.head? = some 43 := (head?_drop_eq_some_iff (by decide)).symm
  have hsign : isSign (byteAt t 0) = true ↔ t.head? = some 45 ∨ t.head? = some 43 := by
    rw [isSign, Bool.or_eq_true, decide_eq_true_eq, decide_eq_true_eq, h45, h43, or_comm]
  exact if_congr hsign rfl rfl

/-- A digit is in the run of digits that starts with it. -/
theorem run_pos_of_digit (h : isDigit (byteAt t i) = true) : 0 < run isDigit t i := by
  have hhead := head?_drop_of_digit h
  unfold run
  cases hu : t.drop i with
  | nil => rw [hu] at hhead; cases hhead
  | cons c u =>
    rw [hu] at hhead
    obtain rfl := Option.some.inj hhead
    rw [List.takeWhile_cons_of_pos h]
    exact Nat.succ_pos _

/-- Digits, a point and digits are what `strtod` takes of them. -/
theorem matchFraction_eq_some {q : ℕ} (h : matchFraction t (i + run isDigit t i) = some q) :
    q = i + mantissaLength isDigit (t.drop i) := by
  have hpoint : ((t.drop i).drop (run isDigit t i)).head? = some 46 ↔
      byteAt t (i + run isDigit t i) = point := by
    rw [List.drop_drop]
    exact head?_drop_eq_some_iff (by decide)
  have hrun : ((t.drop i).takeWhile isDigit).length = run isDigit t i := rfl
  have hfraction : (((t.drop i).drop (run isDigit t i + 1)).takeWhile isDigit).length =
      run isDigit t (i + run isDigit t i + 1) := by
    rw [List.drop_drop]
    rfl
  rw [mantissaLength, hrun, hfraction]
  rw [matchFraction] at h
  split_ifs at h with hp hdigit
  · have hpos := run_pos_of_digit hdigit
    rw [Option.some_inj] at h
    rw [if_pos ⟨hpoint.2 hp, by omega⟩]
    omega
  · rw [Option.some_inj] at h
    rw [if_neg fun hand => hp (hpoint.1 hand.1)]
    exact h.symm

/-- The exponent is what `strtod` takes of it. -/
theorem matchExponent_eq_some {q : ℕ} (hq : 0 < q) (h : matchExponent t q = some n) :
    n = q + exponentLength 101 (t.drop q) := by
  have hmark : (t.drop q).head? = some 101 ∨ (t.drop q).head? = some (101 - 32) ↔
      byteAt t q = 101 ∨ byteAt t q = 69 :=
    or_congr (head?_drop_eq_some_iff (by decide)) (head?_drop_eq_some_iff (by decide))
  have hbyte : byteAt t (q + 1) = byteAt (t.drop (q + 1)) 0 := by
    unfold byteAt
    rw [List.getD_eq_getElem?_getD, List.getD_eq_getElem?_getD, List.getElem?_drop, Nat.add_zero]
  have hsign : (if isSign (byteAt t (q + 1)) = true then q + 1 + 1 else q + 1) =
      q + (1 + signLength (t.drop (q + 1))) := by
    rw [← signLength_eq, hbyte]
    split_ifs <;> rfl
  rw [matchExponent, hsign] at h
  rw [exponentLength, List.drop_drop]
  by_cases hexp : byteAt t q = 101 ∨ byteAt t q = 69
  · rw [if_pos ⟨hexp, hq⟩] at h
    dsimp only at h
    split_ifs at h with hdigit
    have hpos := run_pos_of_digit hdigit
    have hrun : (((t.drop q).drop (1 + signLength (t.drop (q + 1)))).takeWhile isDigit).length =
        run isDigit t (q + (1 + signLength (t.drop (q + 1)))) := by
      rw [List.drop_drop]
      rfl
    rw [Option.some_inj] at h
    rw [if_pos (hmark.2 hexp)]
    dsimp only
    rw [hrun, if_neg hpos.ne']
    omega
  · rw [if_neg fun hand => hexp hand.1, Option.some_inj] at h
    rw [if_neg fun hor => hexp (hmark.1 hor)]
    exact h.symm

/-- The lexeme of a number is its sign and the decimal number that `strtod` takes. -/
theorem matchNumber_eq_some (h : matchNumber t = some n) :
    isDigit (byteAt t (signLength t)) = true ∧
      0 < numberLength isDigit 101 (t.drop (signLength t)) ∧
      n = signLength t + numberLength isDigit 101 (t.drop (signLength t)) := by
  unfold matchNumber at h
  dsimp only at h
  rw [signLength_eq] at h
  split_ifs at h with hdigit
  obtain ⟨q, hfraction, hexponent⟩ := Option.bind_eq_some_iff.1 h
  have hpos := run_pos_of_digit hdigit
  have hq := matchFraction_eq_some hfraction
  have hle : run isDigit t (signLength t) ≤ mantissaLength isDigit (t.drop (signLength t)) := by
    have hrun : ((t.drop (signLength t)).takeWhile isDigit).length =
        run isDigit t (signLength t) := rfl
    rw [mantissaLength, hrun]
    split_ifs <;> omega
  have hn := matchExponent_eq_some (by omega) hexponent
  have hnumber : numberLength isDigit 101 (t.drop (signLength t)) =
      mantissaLength isDigit (t.drop (signLength t)) + exponentLength 101 (t.drop q) := by
    rw [numberLength, if_neg (by omega), List.drop_drop, ← hq]
  refine ⟨hdigit, by omega, by omega⟩

/-- The lexeme of a number does not reach behind the terminator. -/
theorem matchNumber_before (h : matchNumber t = some n) :
    matchNumber (before nul t) = some n ∧ t.take n = (before nul t).take n := by
  have hstops : matchNumber (before nul t) = some n := by
    by_cases hnul : nul ∈ t
    · rw [← before_append_cons_after hnul, local_matchNumber.stops] at h
      exact h
    · rw [before_eq_self hnul]
      exact h
  refine ⟨hstops, ?_⟩
  obtain ⟨rest, hrest, -⟩ := exists_eq_before_append nul t
  have hle := local_matchNumber.le _ _ hstops
  calc t.take n = (before nul t ++ rest).take n := by rw [← hrest]
    _ = (before nul t).take n := List.take_append_of_le_length hle

/-! ## The value -/

/-- A lexeme with neither a point nor an exponent, of an integer that fits 64 bits with its sign. -/
structure IsInteger (w : Text) : Prop where
  noPoint : point ∉ w
  noExponent : (101 : UInt8) ∉ w ∧ (69 : UInt8) ∉ w
  min_le : -2 ^ 63 ≤ integerValue w
  le_max : integerValue w ≤ 2 ^ 63 - 1

/-- Whether a lexeme is an integer of 64 bits can be decided. -/
instance (w : Text) : Decidable (IsInteger w) :=
  decidable_of_iff (point ∉ w ∧ ((101 : UInt8) ∉ w ∧ (69 : UInt8) ∉ w) ∧
      -2 ^ 63 ≤ integerValue w ∧ integerValue w ≤ 2 ^ 63 - 1)
    ⟨fun h => ⟨h.1, h.2.1, h.2.2.1, h.2.2.2⟩,
      fun h => ⟨h.noPoint, h.noExponent, h.min_le, h.le_max⟩⟩

/-- What a lexeme means: the integer that it writes, or a double. -/
def numberValue (convert : Text → UInt64) (w : Text) : PolycallValue :=
  if IsInteger w then .integer (integerValue w) else .float (convert w)

/-- A byte behind the start of a lexeme is in it. -/
theorem mem_take_of_byteAt {k : ℕ} (hb : b ≠ nul) (hbyte : byteAt t k = b) (hk : k < n) :
    b ∈ t.take n := by
  have hget : (t.drop k).head? = some b := (head?_drop_eq_some_iff hb).2 hbyte
  rw [List.head?_drop] at hget
  exact List.mem_iff_getElem?.2 ⟨k, by rw [List.getElem?_take, if_pos hk, hget]⟩

/-- A lexeme with neither a point nor an exponent is a sign and digits. -/
theorem length_of_plain (h : matchNumber t = some n) (hpoint : point ∉ t.take n)
    (hexponent : (101 : UInt8) ∉ t.take n ∧ (69 : UInt8) ∉ t.take n) :
    n = signLength t + ((t.drop (signLength t)).takeWhile isDigit).length := by
  obtain ⟨-, hpos, hn⟩ := matchNumber_eq_some h
  set s := signLength t with hs
  set whole := ((t.drop s).takeWhile isDigit).length with hwhole
  have hbyteAt : ∀ (c : UInt8) (k : ℕ), c ≠ nul → ((t.drop s).drop k).head? = some c →
      byteAt t (s + k) = c := by
    intro c k hc hhead
    rw [List.drop_drop] at hhead
    exact (head?_drop_eq_some_iff hc).1 hhead
  have hnumber : numberLength isDigit 101 (t.drop s) = mantissaLength isDigit (t.drop s) +
      exponentLength 101 ((t.drop s).drop (mantissaLength isDigit (t.drop s))) := by
    refine if_neg fun hzero => hpos.ne' ?_
    rw [numberLength, if_pos hzero]
  -- Neither a point nor the mark of an exponent is read.
  have hmantissa : mantissaLength isDigit (t.drop s) = whole := by
    refine (mantissaLength_cases isDigit (t.drop s)).resolve_right ?_
    rintro ⟨hhead, hlt⟩
    have hbyte := hbyteAt point _ (by decide) hhead
    exact hpoint (mem_take_of_byteAt (by decide) hbyte (by omega))
  have hexp : exponentLength 101 ((t.drop s).drop (mantissaLength isDigit (t.drop s))) = 0 := by
    by_contra hlong
    rcases (exponentLength_cases 101 _).resolve_left hlong with hhead | hhead
    · have hbyte := hbyteAt 101 _ (by decide) hhead
      exact hexponent.1 (mem_take_of_byteAt (by decide) hbyte (by omega))
    · have hbyte := hbyteAt 69 _ (by decide) hhead
      exact hexponent.2 (mem_take_of_byteAt (by decide) hbyte (by omega))
  omega

/-- A lexeme at which a hexadecimal number starts is a single zero. -/
theorem isInteger_of_hex (h : matchNumber t = some n)
    (hhex : StartsWith (lit "0x") (t.drop (signLength t))) : IsInteger (t.take n) := by
  obtain ⟨hdigit, -, hn⟩ := matchNumber_eq_some h
  obtain ⟨c, rest, hrest, hc⟩ := exists_of_startsWith_hex hhex (head?_drop_of_digit hdigit) hdigit
  have hlength : n = signLength t + 1 := by
    rw [hn, hrest]
    rcases hc with rfl | rfl <;> rfl
  rw [hlength]
  unfold signLength at hrest ⊢
  split_ifs at hrest ⊢ with hsign
  · cases t with
    | nil => cases hrest
    | cons a t =>
      have ht : t = 48 :: c :: rest := hrest
      rw [ht]
      rcases hsign with hsign | hsign
      · obtain rfl := Option.some.inj hsign
        exact (by decide : IsInteger [45, 48])
      · obtain rfl := Option.some.inj hsign
        exact (by decide : IsInteger [43, 48])
  · have ht : t = 48 :: c :: rest := hrest
    rw [ht]
    exact (by decide : IsInteger [48])

/-- The double of a lexeme that is no integer is that of the lexeme. -/
theorem strtod_of_matchNumber (convert : Text → UInt64) (h : matchNumber t = some n)
    (hfloat : ¬IsInteger (t.take n)) : strtod convert t = convert (t.take n) := by
  obtain ⟨hdigit, hpos, hn⟩ := matchNumber_eq_some h
  have hsubject : subject t = t.take n := by
    rw [hn]
    exact subject_decimal (head?_drop_of_digit hdigit) hdigit
      (fun hhex => hfloat (isInteger_of_hex h hhex)) hpos
  have hne : t.take n ≠ [] := by
    have hlt := local_matchNumber.pos t n h
    have hle := local_matchNumber.le t n h
    rw [Ne, List.take_eq_nil_iff, not_or]
    refine ⟨by omega, ?_⟩
    rintro rfl
    rw [List.length_nil] at hle
    omega
  rw [strtod, hsubject, if_neg hne]

/-- The integer of a lexeme that is one is what the lexeme writes. -/
theorem strtoll_of_matchNumber (h : matchNumber t = some n) (hint : IsInteger (t.take n)) :
    strtoll t = integerValue (t.take n) := by
  have hdigit := (matchNumber_eq_some h).1
  rw [strtoll_of_digit (head?_drop_of_digit hdigit) hdigit,
    ← length_of_plain h hint.noPoint hint.noExponent, min_eq_right hint.le_max,
    max_eq_right hint.min_le]

/-- The value of a number token is what its lexeme means exactly when a point comes before the end
of the text for a lexeme that is no integer, and for no other. -/
theorem createToken_number_value (convert : Text → UInt64) (position : SourcePosition) (data : ℕ)
    (h : matchNumber t = some n) :
    (createToken (strtod convert) position data .number t n).value =
        numberValue convert (t.take n) ↔
      (point ∈ before nul t ↔ ¬IsInteger (t.take n)) := by
  obtain ⟨hstring, htake⟩ := matchNumber_before h
  rw [htake]
  show (if point ∈ before nul t then PolycallValue.float (strtod convert (before nul t))
    else .integer (strtoll (before nul t))) = _ ↔ _
  unfold numberValue
  by_cases hpoint : point ∈ before nul t
  · rw [if_pos hpoint]
    by_cases hint : IsInteger ((before nul t).take n)
    · rw [if_pos hint]
      exact iff_of_false nofun fun hiff => hiff.1 hpoint hint
    · rw [if_neg hint, strtod_of_matchNumber convert hstring hint]
      exact iff_of_true rfl (iff_of_true hpoint hint)
  · rw [if_neg hpoint]
    by_cases hint : IsInteger ((before nul t).take n)
    · rw [if_pos hint, strtoll_of_matchNumber hstring hint]
      exact iff_of_true rfl (iff_of_false hpoint fun hnot => hnot hint)
    · rw [if_neg hint]
      exact iff_of_false nofun fun hiff => hpoint (hiff.2 hint)

end Lexeme

/-! ## The tokens of a call -/

/-- The operation of `polycall_tokenizer_match_number`. -/
def numberPattern : TokenPattern := ⟨matchNumber, .number⟩

/-- A round of a call takes a lexeme of `polycall_tokenizer_match_number`, and stores its token as
`create_token` makes it: there is room, and the consumer leaves number tokens as they are. -/
structure StoresNumber (strtod : Text → UInt64) (ops : TokenizerOperations)
    (t s : PolycallTokenizer) (n : ℕ) : Prop where
  inCall : InCall strtod ops t s
  takes : ∃ consumer, Takes ops s (numberPattern, consumer) n ∧
    ∀ token, consumer.accepts = token.type → consumer.consume token = token
  room : s.HasRoom

/-- Where a call stores the token of a number, the token has the value that the lexeme means. -/
def NumbersMeant (convert : Text → UInt64) (ops : TokenizerOperations)
    (t t' : PolycallTokenizer) : Prop :=
  ∀ s n, StoresNumber (strtod convert) ops t s n →
    ∃ token, t'.tokens.tokens[s.tokens.tokens.length]? = some token ∧ token.type = .number ∧
      token.value = numberValue convert (s.current.take n)

/-- The number tokens of a call mean their lexemes if and only if, for each of them, a point stands
in the text from the lexeme to the next terminator exactly when the lexeme is no integer of 64
bits. -/
theorem numbersMeant_iff (convert : Text → UInt64) (ops : TokenizerOperations)
    (t : PolycallTokenizer) {result : Bool} {t' : PolycallTokenizer}
    (hprocess : process (strtod convert) t (some ops) = some (result, t')) :
    NumbersMeant convert ops t t' ↔
      ∀ s n, StoresNumber (strtod convert) ops t s n →
        (point ∈ before nul s.current ↔ ¬IsInteger (s.current.take n)) := by
  have hreturns := process_eq_some_iff.1 hprocess
  refine forall₂_congr fun s n => forall_congr' fun hstores => ?_
  obtain ⟨hin, ⟨consumer, htakes, hconsumer⟩, hroom⟩ := hstores
  have hmatch : matchNumber s.current = some n := (matcher_of_firstMatch htakes.matched).2
  have hstores : Stores (strtod convert) ops t s _ :=
    ⟨hin, .lexeme htakes (local_matchNumber.pos _ _ hmatch), hroom⟩
  have hstored := hstores.getElem?_tokens hreturns
  rw [makeToken_of_leaves hconsumer] at hstored
  rw [← createToken_number_value convert s.position s.input.position hmatch]
  constructor
  · rintro ⟨token, htoken, -, hvalue⟩
    rw [hstored] at htoken
    obtain rfl := Option.some.inj htoken
    exact hvalue
  · intro hvalue
    exact ⟨_, hstored, rfl, hvalue⟩

/-- A number that is the whole input has the value that it means. -/
theorem numbersMeant_iff_number : ∃ result t',
    process (strtod fun _ => 0) (setInput smallTokenizer (some (lit "12"))).2
        (some matcherOperations) = some (result, t') ∧
      NumbersMeant (fun _ => 0) matcherOperations
        (setInput smallTokenizer (some (lit "12"))).2 t' := by
  refine ⟨_, _, rfl, (numbersMeant_iff (fun _ => 0) matcherOperations _ rfl).2 fun s n hs => ?_⟩
  let start := (setInput smallTokenizer (some (lit "12"))).2.started
  have htakes : Takes matcherOperations start (⟨matchNumber, .number⟩, ⟨id, .invalid⟩) 2 :=
    ⟨by decide, rfl, rfl⟩
  obtain ⟨consumer, hs', -⟩ := hs.takes
  rcases Walks.Machine.Reaches.eq_or_eq hs.inCall (Round.take htakes two_pos) (.full (by decide))
    with rfl | rfl
  · obtain ⟨-, rfl⟩ := htakes.unique hs'
    exact iff_of_false (by decide) (by decide)
  · exact absurd hs'.inside (by decide)

/-- The bits of the doubles `1.0` and `2.5`. -/
def oneOrTwoAndHalf (t : Text) : UInt64 :=
  if t = lit "1" then 4607182418800017408 else 4612811918334230528

/-- Of the input `1 2.5` the first number is stored as the double `1.0`. -/
theorem integer_stored_as_float : ∃ t result t',
    create (some ⟨16, 1⟩) ⟨true, some [], true⟩ = .ok (some t) ∧
      (setInput t (some (lit "1 2.5"))).1 = true ∧
      process (strtod oneOrTwoAndHalf) (setInput t (some (lit "1 2.5"))).2
          (some matcherOperations) = some (result, t') ∧
      t'.tokens.tokens.map PolycallToken.value =
        [.float 4607182418800017408, .float 4612811918334230528] ∧
      ¬NumbersMeant oneOrTwoAndHalf matcherOperations (setInput t (some (lit "1 2.5"))).2 t' := by
  refine ⟨_, _, _, rfl, rfl, rfl, rfl, fun h => ?_⟩
  obtain ⟨token, htoken, -, hvalue⟩ := h _ 1
    ⟨.refl, ⟨⟨id, .invalid⟩, ⟨by decide, rfl, rfl⟩, fun _ _ => rfl⟩, Nat.succ_pos 15⟩
  obtain rfl := Option.some.inj htoken
  exact absurd hvalue (by decide)

end LibPolyCall.Tokenizer
