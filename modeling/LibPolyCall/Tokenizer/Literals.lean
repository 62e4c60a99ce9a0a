import LibPolyCall.Library.Languages
import LibPolyCall.Library.Spans
import LibPolyCall.Tokenizer.Matchers

/-!
# The grammars of the literals

`polycall_tokenizer_match_number` and `polycall_tokenizer_match_string` against the languages of
numbers and strings. The number that is matched is the longest one that the text starts with, but
none is matched where it is followed by a point or an exponent mark with which it could have gone on
(`NumberLexeme`). A string is matched up to its closing quote (`StringLexeme`). `literals_exact`
states this of the functions as they write to `*length`.
-/

namespace LibPolyCall.Tokenizer

open Scan Languages Computability

/-! ## The functions with their result -/

/-- At an `'e'` or `'E'`, and at the end, of `polycall_tokenizer_match_number`: what it returns, and
`*length` behind it. -/
def storeExponent (input : Text) (pos length : ℕ) : Bool × ℕ :=
  if (byteAt input pos = 101 ∨ byteAt input pos = 69) ∧ 0 < pos then
    let expPos := pos + 1
    let expPos := if isSign (byteAt input expPos) then expPos + 1 else expPos
    if !isDigit (byteAt input expPos) then (false, length)
    else (true, expPos + run isDigit input expPos)
  else (true, pos)

/-- `polycall_tokenizer_match_number`: what it returns, and `*length` behind it. -/
def storeNumber (input : Text) (length : ℕ) : Bool × ℕ :=
  let pos := if isSign (byteAt input 0) then 1 else 0
  if !isDigit (byteAt input pos) then (false, length)
  else
    let pos := pos + run isDigit input pos
    if byteAt input pos = point then
      if !isDigit (byteAt input (pos + 1)) then (false, length)
      else storeExponent input (pos + 1 + run isDigit input (pos + 1)) length
    else storeExponent input pos length

/-- The loop of `polycall_tokenizer_match_string`: the position at which it ends. -/
def stringEnd (escaped : Bool) (pos : ℕ) : Text → ℕ
  | [] => pos
  | b :: input =>
    if b ≠ nul ∧ (escaped ∨ b ≠ quote) then
      stringEnd (if escaped then false else b = backslash) (pos + 1) input
    else pos

/-- `polycall_tokenizer_match_string`: what it returns, and `*length` behind it. -/
def storeString (input : Text) (length : ℕ) : Bool × ℕ :=
  if byteAt input 0 ≠ quote then (false, length)
  else
    let pos := stringEnd false 1 (input.drop 1)
    if byteAt input pos = quote then (true, pos + 1) else (false, length)

/-- What a matcher returns, and `*length` behind it. -/
def stored (found : Option ℕ) (length : ℕ) : Bool × ℕ :=
  match found with
  | none => (false, length)
  | some n => (true, n)

/-- The exponent with its result stored is the one of the matcher. -/
theorem storeExponent_eq (input : Text) (pos length : ℕ) :
    storeExponent input pos length = stored (matchExponent input pos) length := by
  unfold storeExponent matchExponent
  by_cases hmark : (byteAt input pos = 101 ∨ byteAt input pos = 69) ∧ 0 < pos
  · rw [if_pos hmark, if_pos hmark]
    dsimp only
    generalize (if isSign (byteAt input (pos + 1)) = true then pos + 1 + 1 else pos + 1) = expPos
    cases isDigit (byteAt input expPos) <;> rfl
  · rw [if_neg hmark, if_neg hmark]
    rfl

/-- The number with its result stored is the one of the matcher. -/
theorem storeNumber_eq (input : Text) (length : ℕ) :
    storeNumber input length = stored (matchNumber input) length := by
  unfold storeNumber matchNumber
  generalize (if isSign (byteAt input 0) = true then 1 else 0) = pos
  dsimp only
  generalize pos + run isDigit input pos = next
  unfold matchFraction
  simp only [storeExponent_eq]
  cases isDigit (byteAt input pos) with
  | false => rfl
  | true =>
    by_cases hpoint : byteAt input next = point
    · rw [if_pos hpoint, if_pos hpoint]
      cases isDigit (byteAt input (next + 1)) <;> rfl
    · rw [if_neg hpoint, if_neg hpoint]
      rfl

/-- Behind a text the runs are those of the rest. -/
theorem run_append_length (p : UInt8 → Bool) (w t : Text) (i : ℕ) :
    run p (w ++ t) (w.length + i) = run p t i := by
  rw [run, List.drop_append, List.drop_of_length_le (Nat.le_add_right _ _), List.nil_append,
    Nat.add_sub_cancel_left]
  rfl

/-! ## The language of numbers -/

/-- `D+`. -/
def digits : Language UInt8 := plus (symbol isDigit)

/-- `[+-]? D+`. -/
def integers : Language UInt8 := opt (symbol isSign) * digits

/-- `. D+`. -/
def fraction : Language UInt8 := symbol (fun b => b = point) * digits

/-- `[+-]? D+ ( . D+ )?`. -/
def decimals : Language UInt8 := integers * opt fraction

/-- `[eE]`. -/
def isMark (b : UInt8) : Bool := b = 101 || b = 69

/-- `[eE] [+-]? D+`. -/
def exponent : Language UInt8 := symbol isMark * integers

/-- `[+-]? D+ ( . D+ )? ( [eE] [+-]? D+ )?`. -/
def numbers : Language UInt8 := decimals * opt exponent

section Languages

variable {w x y : Text} {b c : UInt8}

/-- Digits are one or more. -/
theorem mem_digits : w ∈ digits ↔ w ≠ [] ∧ ∀ b ∈ w, isDigit b = true := mem_plus_symbol

/-- A sign is optional. -/
theorem mem_sign : w ∈ opt (symbol isSign) ↔ w = [] ∨ ∃ b, isSign b = true ∧ w = [b] := mem_opt

/-- A fraction is a point with digits behind it. -/
theorem mem_fraction : w ∈ fraction ↔ ∃ ds ∈ digits, w = point :: ds := by
  refine mem_symbol_mul.trans ⟨?_, ?_⟩
  · rintro ⟨b, hb, ds, hds, rfl⟩
    obtain rfl := of_decide_eq_true hb
    exact ⟨ds, hds, rfl⟩
  · exact fun h => ⟨point, decide_eq_true rfl, h⟩

/-- An exponent is a mark with an integer behind it. -/
theorem mem_exponent : w ∈ exponent ↔ ∃ b, isMark b = true ∧ ∃ x ∈ integers, w = b :: x :=
  mem_symbol_mul

/-- A digit is no sign, no point and no mark. -/
theorem not_isDigit_of_isSign (h : isSign b = true) : isDigit b = false := by
  rcases Bool.or_eq_true_iff.1 h with h | h <;> rw [of_decide_eq_true h] <;> rfl

/-- A mark is no digit. -/
theorem not_isDigit_of_isMark (h : isMark b = true) : isDigit b = false := by
  rcases Bool.or_eq_true_iff.1 h with h | h <;> rw [of_decide_eq_true h] <;> rfl

/-- A mark is no sign. -/
theorem not_isSign_of_isMark (h : isMark b = true) : isSign b = false := by
  rcases Bool.or_eq_true_iff.1 h with h | h <;> rw [of_decide_eq_true h] <;> rfl

/-- A mark is no point. -/
theorem ne_point_of_isMark (h : isMark b = true) : b ≠ point := by
  rcases Bool.or_eq_true_iff.1 h with h | h <;> rw [of_decide_eq_true h] <;> decide

/-- An integer has a byte. -/
theorem ne_nil_of_mem_integers (hw : w ∈ integers) : w ≠ [] := by
  obtain ⟨s, -, ds, hds, rfl⟩ := Language.mem_mul.1 hw
  exact List.append_ne_nil_of_right_ne_nil s (mem_digits.1 hds).1

/-- What is no digit and no sign is in no integer. -/
theorem isDigit_or_isSign_of_mem_integers (hw : w ∈ integers) :
    ∀ b ∈ w, isDigit b = true ∨ isSign b = true := by
  obtain ⟨s, hs, ds, hds, rfl⟩ := Language.mem_mul.1 hw
  intro b hb
  rcases List.mem_append.1 hb with hb | hb
  · rcases mem_sign.1 hs with rfl | ⟨c, hc, rfl⟩
    · cases hb
    · rw [List.mem_singleton.1 hb]
      exact .inr hc
  · exact .inl ((mem_digits.1 hds).2 b hb)

/-- An integer has no point. -/
theorem point_notMem_of_mem_integers (hw : w ∈ integers) : point ∉ w := fun hmem =>
  absurd (isDigit_or_isSign_of_mem_integers hw point hmem) (by decide)

/-- A decimal has no mark. -/
theorem not_isMark_of_mem_decimals (hw : w ∈ decimals) (hb : b ∈ w) : isMark b = false := by
  obtain ⟨i, hi, f, hf, rfl⟩ := Language.mem_mul.1 hw
  have hkinds : isDigit b = true ∨ isSign b = true ∨ b = point := by
    rcases List.mem_append.1 hb with hb | hb
    · exact (isDigit_or_isSign_of_mem_integers hi b hb).imp_right .inl
    · rcases mem_opt.1 hf with rfl | hf
      · cases hb
      · obtain ⟨ds, hds, rfl⟩ := mem_fraction.1 hf
        rcases List.mem_cons.1 hb with rfl | hb
        · exact .inr (.inr rfl)
        · exact .inl ((mem_digits.1 hds).2 b hb)
  rw [Bool.eq_false_iff]
  intro hmark
  rcases hkinds with hdigit | hsign | rfl
  · rw [not_isDigit_of_isMark hmark] at hdigit
    cases hdigit
  · rw [not_isSign_of_isMark hmark] at hsign
    cases hsign
  · exact ne_point_of_isMark hmark rfl

/-- A word with a digit more has its digits at the end. -/
theorem digits_concat (hw : w ∈ digits) (hc : isDigit c = true) : w ++ [c] ∈ digits := by
  rw [mem_digits] at hw ⊢
  refine ⟨List.append_ne_nil_of_left_ne_nil hw.1 _, fun b hb => ?_⟩
  rcases List.mem_append.1 hb with hb | hb
  · exact hw.2 b hb
  · rw [List.mem_singleton.1 hb]
    exact hc

/-- A digit behind an integer makes it longer. -/
theorem integers_concat (hw : w ∈ integers) (hc : isDigit c = true) : w ++ [c] ∈ integers := by
  obtain ⟨s, hs, ds, hds, rfl⟩ := Language.mem_mul.1 hw
  rw [List.append_assoc]
  exact Language.append_mem_mul hs (digits_concat hds hc)

/-- A number with a digit more is a number. -/
theorem numbers_concat (hw : w ∈ numbers) (hc : isDigit c = true) : w ++ [c] ∈ numbers := by
  obtain ⟨x, hx, e, he, rfl⟩ := Language.mem_mul.1 hw
  obtain ⟨i, hi, f, hf, rfl⟩ := Language.mem_mul.1 hx
  rcases mem_opt.1 he with rfl | he
  · rw [List.append_nil]
    have hdecimal : i ++ f ++ [c] ∈ decimals := by
      rcases mem_opt.1 hf with rfl | hf
      · rw [List.append_nil, ← List.append_nil (i ++ [c])]
        exact Language.append_mem_mul (integers_concat hi hc) (mem_opt.2 (.inl rfl))
      · obtain ⟨ds, hds, rfl⟩ := mem_fraction.1 hf
        rw [List.append_assoc]
        refine Language.append_mem_mul hi (mem_opt.2 (.inr (mem_fraction.2 ?_)))
        exact ⟨ds ++ [c], digits_concat hds hc, rfl⟩
    rw [← List.append_nil (i ++ f ++ [c])]
    exact Language.append_mem_mul hdecimal (mem_opt.2 (.inl rfl))
  · obtain ⟨b, hb, j, hj, rfl⟩ := mem_exponent.1 he
    rw [List.append_assoc]
    refine Language.append_mem_mul hx (mem_opt.2 (.inr (mem_exponent.2 ?_)))
    exact ⟨b, hb, j ++ [c], integers_concat hj hc, rfl⟩

end Languages

/-! ## The pieces of a number -/

/-- A text goes on without a digit. -/
def NoDigit (rest : Text) : Prop := ∀ b, rest.head? = some b → isDigit b = false

/-- The fraction in front of a text, or none where no point is. -/
def IsFraction (piece rest : Text) : Prop :=
  piece = [] ∧ rest.head? ≠ some point ∨ piece ∈ fraction ∧ NoDigit rest

/-- The exponent in front of a text, or none where no mark is. -/
def IsExponent (piece rest : Text) : Prop :=
  piece = [] ∧ (∀ b, rest.head? = some b → isMark b = false) ∨ piece ∈ exponent ∧ NoDigit rest

/-- The number in front of a text in its pieces, each as far as it goes. -/
structure NumberPieces (i f e rest : Text) : Prop where
  integer : i ∈ integers
  noDigit : NoDigit (f ++ (e ++ rest))
  fraction : IsFraction f (e ++ rest)
  exponent : IsExponent e rest

section Pieces

variable {i j f e g h rest u x y : Text}

/-- A sign and digits go as far as the digits go. -/
theorem integers_append_eq (hi : i ∈ integers) (hj : j ∈ integers) (hrest : NoDigit rest)
    (heq : i ++ y = j ++ rest) :
    ∃ more, j = i ++ more ∧ y = more ++ rest ∧ ∀ b ∈ more, isDigit b = true := by
  obtain ⟨s, hs, ds, hds, rfl⟩ := Language.mem_mul.1 hi
  obtain ⟨s', hs', ds', hds', rfl⟩ := Language.mem_mul.1 hj
  rw [mem_digits] at hds hds'
  obtain ⟨d, ds, rfl⟩ := List.exists_cons_of_ne_nil hds.1
  obtain ⟨d', ds', rfl⟩ := List.exists_cons_of_ne_nil hds'.1
  have hd : isDigit d = true := hds.2 d List.mem_cons_self
  have hd' : isDigit d' = true := hds'.2 d' List.mem_cons_self
  rw [List.append_assoc, List.append_assoc] at heq
  -- A sign is no digit, so both have the same.
  obtain rfl : s = s' := by
    rcases mem_sign.1 hs with rfl | ⟨b, hb, rfl⟩ <;> rcases mem_sign.1 hs' with rfl | ⟨b', hb', rfl⟩
    · rfl
    · obtain rfl := (List.cons.inj heq).1
      rw [not_isDigit_of_isSign hb'] at hd
      cases hd
    · obtain rfl := (List.cons.inj heq).1
      rw [not_isDigit_of_isSign hb] at hd'
      cases hd'
    · rw [(List.cons.inj heq).1]
  obtain ⟨more, hmore, hy⟩ :=
    (IsSpan.mk hds'.2 hrest).exists_eq_append hds.2 (List.append_cancel_left heq)
  refine ⟨more, by rw [hmore, List.append_assoc], hy, fun b hb => hds'.2 b ?_⟩
  rw [hmore]
  exact List.mem_append_right _ hb

/-- Digits in front of a text that starts without one are none. -/
theorem eq_nil_of_digits {more : Text} {b : UInt8} (hmore : ∀ b ∈ more, isDigit b = true)
    (hb : isDigit b = false) (heq : b :: y = more ++ rest) : more = [] ∧ rest = b :: y := by
  cases more with
  | nil => exact ⟨rfl, heq.symm⟩
  | cons c more =>
    obtain rfl := (List.cons.inj heq).1
    rw [hmore b List.mem_cons_self] at hb
    cases hb

/-- An exponent is not longer than the one in front of the text. -/
theorem IsExponent.length_le (hpiece : IsExponent e rest) (hh : h ∈ opt exponent) {more : Text}
    (hmore : ∀ b ∈ more, isDigit b = true) (heq : h ++ y = more ++ (e ++ rest)) :
    h.length ≤ more.length + e.length := by
  rcases mem_opt.1 hh with rfl | hh
  · exact Nat.zero_le _
  · obtain ⟨b, hb, i, hi, rfl⟩ := mem_exponent.1 hh
    obtain ⟨rfl, hmark⟩ := eq_nil_of_digits hmore (not_isDigit_of_isMark hb) heq
    rcases hpiece with ⟨rfl, hnone⟩ | ⟨he, hrest⟩
    · have hfalse := hnone b (by rw [← List.nil_append rest, hmark]; rfl)
      rw [hb] at hfalse
      cases hfalse
    · obtain ⟨c, -, j, hj, rfl⟩ := mem_exponent.1 he
      obtain ⟨more, rfl, -, -⟩ := integers_append_eq hi hj hrest (List.cons.inj hmark).2.symm
      simp only [List.length_cons, List.length_append, List.length_nil]
      omega

/-- A fraction and an exponent are not longer than those in front of the text. -/
theorem IsFraction.length_le (hpiece : IsFraction f (e ++ rest)) (hexponent : IsExponent e rest)
    (hg : g ∈ opt fraction) (hh : h ∈ opt exponent) {more : Text}
    (hmore : ∀ b ∈ more, isDigit b = true) (heq : g ++ (h ++ y) = more ++ (f ++ (e ++ rest))) :
    g.length + h.length ≤ more.length + f.length + e.length := by
  rcases mem_opt.1 hg with rfl | hg
  · rcases hpiece with ⟨rfl, -⟩ | ⟨hf, -⟩
    · have hle := hexponent.length_le hh hmore heq
      simp only [List.length_nil]
      omega
    · -- The text goes on with a point, which no exponent starts with.
      obtain ⟨ds, -, rfl⟩ := mem_fraction.1 hf
      rcases mem_opt.1 hh with rfl | hh
      · simp
      · obtain ⟨b, hb, i, -, rfl⟩ := mem_exponent.1 hh
        obtain ⟨-, hpoint⟩ := eq_nil_of_digits hmore (not_isDigit_of_isMark hb) heq
        exact absurd (List.cons.inj hpoint).1.symm (ne_point_of_isMark hb)
  · obtain ⟨ds, hds, rfl⟩ := mem_fraction.1 hg
    obtain ⟨rfl, hpoint⟩ := eq_nil_of_digits hmore (by decide) heq
    rcases hpiece with ⟨rfl, hnone⟩ | ⟨hf, hrest⟩
    · exact absurd (by rw [← List.nil_append (e ++ rest), hpoint]; rfl) hnone
    · obtain ⟨ds', hds', rfl⟩ := mem_fraction.1 hf
      rw [mem_digits] at hds hds'
      obtain ⟨more, rfl, hy⟩ := (IsSpan.mk hds'.2 hrest).exists_eq_append hds.2
        (List.cons.inj hpoint).2.symm
      have hle := hexponent.length_le hh
        (fun b hb => hds'.2 b (List.mem_append_right _ hb)) hy
      simp only [List.length_cons, List.length_append, List.length_nil]
      omega

/-- The fraction in front of a text is an optional one. -/
theorem IsFraction.mem (h : IsFraction f rest) : f ∈ opt fraction :=
  mem_opt.2 (h.imp And.left And.left)

/-- The exponent in front of a text is an optional one. -/
theorem IsExponent.mem (h : IsExponent e rest) : e ∈ opt exponent :=
  mem_opt.2 (h.imp And.left And.left)

/-- The pieces of a number make up a number. -/
theorem NumberPieces.mem (h : NumberPieces i f e rest) : i ++ (f ++ e) ∈ numbers := by
  rw [← List.append_assoc]
  exact Language.append_mem_mul (Language.append_mem_mul h.integer h.fraction.mem) h.exponent.mem

end Pieces

/-- The number in front of a text: the longest one, and not one that a point or a mark behind it
could have gone on with. -/
structure NumberLexeme (u : Text) (n : ℕ) : Prop where
  longest : LongestPrefix numbers u n
  point : u.take n ∈ integers → (u.drop n).head? ≠ some point
  mark : u.take n ∈ decimals → ∀ b, (u.drop n).head? = some b → isMark b = false

section Lexeme

variable {i f e rest u : Text} {n : ℕ}

/-- A number that is read piece by piece is the one in front of the text. -/
theorem NumberPieces.lexeme (h : NumberPieces i f e rest) :
    NumberLexeme (i ++ (f ++ e) ++ rest) (i ++ (f ++ e)).length := by
  refine ⟨longestPrefix_append h.mem fun x y hx heq => ?_, ?_, ?_⟩
  · obtain ⟨d, hd, e', he', rfl⟩ := Language.mem_mul.1 hx
    obtain ⟨j, hj, g, hg, rfl⟩ := Language.mem_mul.1 hd
    simp only [List.append_assoc] at heq
    obtain ⟨more, rfl, hy, hmore⟩ := integers_append_eq hj h.integer h.noDigit heq
    have hle := h.fraction.length_le h.exponent hg he' hmore hy
    simp only [List.length_append]
    omega
  · rw [List.take_left, List.drop_left]
    intro hinteger
    -- The number has no fraction and no exponent.
    have hpoint := point_notMem_of_mem_integers hinteger
    have hmark : ∀ b ∈ i ++ (f ++ e), isMark b = false := fun b hb =>
      not_isMark_of_mem_decimals (Language.append_mem_mul hinteger (mem_opt.2 (.inl rfl)))
        (List.mem_append_left _ hb)
    rcases h.fraction with ⟨rfl, hnone⟩ | ⟨hf, -⟩
    · rcases h.exponent with ⟨rfl, -⟩ | ⟨he, -⟩
      · exact hnone
      · obtain ⟨b, hb, j, -, rfl⟩ := mem_exponent.1 he
        rw [hmark b (by simp)] at hb
        cases hb
    · obtain ⟨ds, -, rfl⟩ := mem_fraction.1 hf
      exact absurd (by simp) hpoint
  · rw [List.take_left, List.drop_left]
    intro hdecimal
    rcases h.exponent with ⟨-, hnone⟩ | ⟨he, -⟩
    · exact hnone
    · obtain ⟨b, hb, j, -, rfl⟩ := mem_exponent.1 he
      rw [not_isMark_of_mem_decimals hdecimal (by simp)] at hb
      cases hb

/-- The number in front of a text has its pieces. -/
theorem NumberLexeme.exists_pieces (h : NumberLexeme u n) :
    ∃ i f e rest, NumberPieces i f e rest ∧ u = i ++ (f ++ e) ++ rest ∧
      n = (i ++ (f ++ e)).length := by
  -- The number would be longer with another digit.
  have hrest : NoDigit (u.drop n) := by
    intro b hb
    rw [Bool.eq_false_iff]
    intro hdigit
    rw [List.head?_drop] at hb
    have hlt := (List.getElem?_eq_some_iff.1 hb).1
    have hmem := numbers_concat h.longest.mem hdigit
    have hle := h.longest.longest (n + 1) hlt (by rwa [List.take_add_one, hb])
    omega
  have hlength : (u.take n).length = n := by
    rw [List.length_take, Nat.min_eq_left h.longest.le]
  obtain ⟨d, hd, e, he, heq⟩ := Language.mem_mul.1 h.longest.mem
  obtain ⟨i, hi, f, hf, rfl⟩ := Language.mem_mul.1 hd
  have hexponent : IsExponent e (u.drop n) := by
    rcases mem_opt.1 he with rfl | he
    · rw [List.append_nil] at heq
      exact .inl ⟨rfl, h.mark (heq ▸ hd)⟩
    · exact .inr ⟨he, hrest⟩
  -- What comes behind the fraction is the exponent, or what comes behind the number.
  have hbehind : NoDigit (e ++ u.drop n) := by
    rcases mem_opt.1 he with rfl | he
    · exact hrest
    · obtain ⟨b, hb, j, -, rfl⟩ := mem_exponent.1 he
      intro c hc
      obtain rfl := Option.some.inj hc
      exact not_isDigit_of_isMark hb
  have hfraction : IsFraction f (e ++ u.drop n) := by
    rcases mem_opt.1 hf with rfl | hf
    · refine .inl ⟨rfl, ?_⟩
      rcases mem_opt.1 he with rfl | he
      · rw [List.append_nil, List.append_nil] at heq
        exact h.point (heq ▸ hi)
      · obtain ⟨b, hb, j, -, rfl⟩ := mem_exponent.1 he
        exact fun hpoint => ne_point_of_isMark hb (Option.some.inj hpoint)
    · exact .inr ⟨hf, hbehind⟩
  have hdigits : NoDigit (f ++ (e ++ u.drop n)) := by
    rcases mem_opt.1 hf with rfl | hf
    · exact hbehind
    · obtain ⟨ds, -, rfl⟩ := mem_fraction.1 hf
      intro c hc
      obtain rfl := Option.some.inj hc
      rfl
  rw [List.append_assoc] at heq
  refine ⟨i, f, e, u.drop n, ⟨hi, hdigits, hfraction, hexponent⟩, ?_, ?_⟩
  · rw [heq, List.take_append_drop]
  · rw [heq, hlength]

end Lexeme

/-! ## What the matcher of numbers reads -/

/-- The length of the digits in front of a text. -/
def digitsLength (t : Text) : Option ℕ :=
  if isDigit (byteAt t 0) then some (run isDigit t 0) else none

/-- The length of the sign and the digits in front of a text. -/
def integerLength (t : Text) : Option ℕ :=
  if isSign (byteAt t 0) then (digitsLength (t.drop 1)).map (1 + ·) else digitsLength t

section Numbers

variable {t u w : Text} {b : UInt8} {n q : ℕ}

/-- The digits in front of a text are as many as there are. -/
theorem digitsLength_eq_some_iff : digitsLength t = some n ↔
    ∃ ds rest, ds ∈ digits ∧ NoDigit rest ∧ t = ds ++ rest ∧ n = ds.length := by
  unfold digitsLength
  constructor
  · intro h
    split_ifs at h with hdigit
    obtain rfl := Option.some.inj h
    refine ⟨t.takeWhile isDigit, t.dropWhile isDigit, mem_digits.2 ⟨?_, fun b hb => ?_⟩,
      (isSpan_takeWhile isDigit t).ends, List.takeWhile_append_dropWhile.symm, rfl⟩
    · cases t with
      | nil => cases hdigit
      | cons b t =>
        have hb : isDigit b = true := hdigit
        rw [List.takeWhile_cons_of_pos hb]
        exact List.cons_ne_nil _ _
    · exact List.mem_takeWhile_imp hb
  · rintro ⟨ds, rest, hds, hrest, rfl, rfl⟩
    rw [mem_digits] at hds
    obtain ⟨d, more, rfl⟩ := List.exists_cons_of_ne_nil hds.1
    have hd : isDigit (byteAt (d :: more ++ rest) 0) = true := hds.2 d List.mem_cons_self
    rw [if_pos hd, Option.some_inj]
    exact congrArg List.length (IsSpan.mk hds.2 hrest).takeWhile

/-- The integer in front of a text goes as far as its digits. -/
theorem integerLength_eq_some_iff : integerLength t = some n ↔
    ∃ i rest, i ∈ integers ∧ NoDigit rest ∧ t = i ++ rest ∧ n = i.length := by
  unfold integerLength
  -- Behind a sign there have to be digits.
  by_cases hsign : isSign (byteAt t 0) = true
  · rw [if_pos hsign, Option.map_eq_some_iff]
    cases t with
    | nil => cases hsign
    | cons b t =>
      have hb : isSign b = true := hsign
      constructor
      · rintro ⟨k, hk, rfl⟩
        obtain ⟨ds, rest, hds, hrest, heq, rfl⟩ := digitsLength_eq_some_iff.1 hk
        refine ⟨[b] ++ ds, rest, Language.append_mem_mul (mem_sign.2 (.inr ⟨b, hb, rfl⟩)) hds,
          hrest, congrArg (b :: ·) heq, ?_⟩
        rw [List.length_append, List.length_singleton]
      · rintro ⟨i, rest, hi, hrest, heq, rfl⟩
        obtain ⟨s, hs, ds, hds, rfl⟩ := Language.mem_mul.1 hi
        rcases mem_sign.1 hs with rfl | ⟨c, -, rfl⟩
        · -- The text starts with a sign, and not with a digit.
          obtain ⟨d, ds, rfl⟩ := List.exists_cons_of_ne_nil (mem_digits.1 hds).1
          obtain rfl := (List.cons.inj heq).1
          have hd := (mem_digits.1 hds).2 b List.mem_cons_self
          rw [not_isDigit_of_isSign hb] at hd
          cases hd
        · refine ⟨ds.length, ?_, ?_⟩
          · exact digitsLength_eq_some_iff.2 ⟨ds, rest, hds, hrest, (List.cons.inj heq).2, rfl⟩
          · rw [List.length_append, List.length_singleton]
  · rw [if_neg hsign, digitsLength_eq_some_iff]
    constructor
    · rintro ⟨ds, rest, hds, hrest, rfl, rfl⟩
      exact ⟨ds, rest, Language.append_mem_mul (mem_sign.2 (.inl rfl)) hds, hrest, rfl, rfl⟩
    · rintro ⟨i, rest, hi, hrest, rfl, rfl⟩
      obtain ⟨s, hs, ds, hds, rfl⟩ := Language.mem_mul.1 hi
      rcases mem_sign.1 hs with rfl | ⟨c, hc, rfl⟩
      · exact ⟨ds, rest, hds, hrest, rfl, rfl⟩
      · exact absurd hc hsign

/-- The digits that are read behind some text. -/
theorem read_digits (w t : Text) :
    (if isDigit (byteAt (w ++ t) w.length) = true then
        some (w.length + run isDigit (w ++ t) w.length)
      else none) = (digitsLength t).map (w.length + ·) := by
  have hbyte := byteAt_append_length w t 0
  have hrun := run_append_length isDigit w t 0
  rw [Nat.add_zero] at hbyte hrun
  rw [hbyte, hrun, digitsLength]
  split_ifs <;> rfl

/-- The sign and the digits that are read behind some text. -/
theorem read_integer (w t : Text) :
    (let pos := if isSign (byteAt (w ++ t) w.length) then w.length + 1 else w.length
      if isDigit (byteAt (w ++ t) pos) then some (pos + run isDigit (w ++ t) pos) else none) =
      (integerLength t).map (w.length + ·) := by
  have hbyte := byteAt_append_length w t 0
  rw [Nat.add_zero] at hbyte
  rw [hbyte, integerLength]
  by_cases hsign : isSign (byteAt t 0) = true
  · rw [if_pos hsign, if_pos hsign]
    cases t with
    | nil => cases hsign
    | cons b t =>
      have hdigits := read_digits (w ++ [b]) t
      rw [List.append_assoc, List.length_append, List.length_singleton] at hdigits
      refine hdigits.trans ?_
      rw [Option.map_map]
      congr 1
      funext k
      exact Nat.add_assoc _ _ _
  · rw [if_neg hsign, if_neg hsign]
    exact read_digits w t

/-- A number is matched piece by piece. -/
theorem matchNumber_eq (u : Text) : matchNumber u =
    (integerLength u).bind fun pos => (matchFraction u pos).bind (matchExponent u) := by
  have hinteger := read_integer [] u
  simp only [List.nil_append, List.length_nil, Nat.zero_add, Option.map_id'] at hinteger
  rw [← hinteger, matchNumber]
  generalize (if isSign (byteAt u 0) = true then 1 else 0) = pos
  split_ifs <;> rfl

/-- An optional piece behind some text: a mark, and something that digits end. -/
theorem read_piece (mark : UInt8 → Bool) {inner : Language UInt8} {length : Text → Option ℕ}
    (hnul : mark nul = false) (hlength : ∀ {t n}, length t = some n ↔
      ∃ i rest, i ∈ inner ∧ NoDigit rest ∧ t = i ++ rest ∧ n = i.length) :
    (if mark (byteAt t 0) = true then (length (t.drop 1)).map (w.length + 1 + ·)
      else some w.length) = some q ↔
      ∃ e rest, (e = [] ∧ (∀ b, rest.head? = some b → mark b = false) ∨
        e ∈ symbol mark * inner ∧ NoDigit rest) ∧ t = e ++ rest ∧ q = (w ++ e).length := by
  -- The mark decides whether there is a piece.
  by_cases hmark : mark (byteAt t 0) = true
  · rw [if_pos hmark, Option.map_eq_some_iff]
    cases t with
    | nil => cases hnul.symm.trans hmark
    | cons b t =>
      have hb : mark b = true := hmark
      constructor
      · rintro ⟨k, hk, rfl⟩
        obtain ⟨i, rest, hi, hrest, heq, rfl⟩ := hlength.1 hk
        refine ⟨b :: i, rest, .inr ⟨mem_symbol_mul.2 ⟨b, hb, i, hi, rfl⟩, hrest⟩,
          congrArg (b :: ·) heq, ?_⟩
        rw [List.length_append, List.length_cons]
        omega
      · rintro ⟨e, rest, ⟨rfl, hnone⟩ | ⟨he, hrest⟩, heq, rfl⟩
        · rw [hnone b (by rw [← List.nil_append rest, ← heq]; rfl)] at hb
          cases hb
        · obtain ⟨c, -, i, hi, rfl⟩ := mem_symbol_mul.1 he
          refine ⟨i.length, hlength.2 ⟨i, rest, hi, hrest, (List.cons.inj heq).2, rfl⟩, ?_⟩
          rw [List.length_append, List.length_cons]
          omega
  · rw [if_neg hmark, Option.some_inj]
    -- Without it the piece is empty.
    have hhead : ∀ b, t.head? = some b → mark b = false := by
      intro b hb
      cases t with
      | nil => cases hb
      | cons c t =>
        obtain rfl := Option.some.inj hb
        exact Bool.eq_false_iff.2 hmark
    constructor
    · rintro rfl
      exact ⟨[], t, .inl ⟨rfl, hhead⟩, rfl, by rw [List.append_nil]⟩
    · rintro ⟨e, rest, ⟨rfl, -⟩ | ⟨he, -⟩, rfl, rfl⟩
      · rw [List.append_nil]
      · obtain ⟨b, hb, i, -, rfl⟩ := mem_symbol_mul.1 he
        rw [hhead b rfl] at hb
        cases hb

/-- Behind a text, a fraction is matched at a point. -/
theorem matchFraction_append_length (w t : Text) : matchFraction (w ++ t) w.length =
    if decide (byteAt t 0 = point) = true then (digitsLength (t.drop 1)).map (w.length + 1 + ·)
    else some w.length := by
  have hbyte := byteAt_append_length w t 0
  rw [Nat.add_zero] at hbyte
  unfold matchFraction
  rw [hbyte]
  simp only [decide_eq_true_eq]
  refine if_ctx_congr Iff.rfl (fun hpoint => ?_) fun _ => rfl
  cases t with
  | nil => cases hpoint
  | cons b t =>
    have hdigits := read_digits (w ++ [b]) t
    rw [List.append_assoc, List.length_append, List.length_singleton] at hdigits
    exact hdigits

/-- Behind a text, an exponent is matched at a mark. -/
theorem matchExponent_append_length (hw : w ≠ []) (t : Text) : matchExponent (w ++ t) w.length =
    if isMark (byteAt t 0) = true then (integerLength (t.drop 1)).map (w.length + 1 + ·)
    else some w.length := by
  have hbyte := byteAt_append_length w t 0
  rw [Nat.add_zero] at hbyte
  have hmark : (byteAt t 0 = 101 ∨ byteAt t 0 = 69) ∧ 0 < w.length ↔
      isMark (byteAt t 0) = true := by
    rw [isMark, Bool.or_eq_true, decide_eq_true_eq, decide_eq_true_eq,
      and_iff_left (List.length_pos_iff.2 hw)]
  unfold matchExponent
  rw [hbyte]
  refine if_ctx_congr hmark (fun hb => ?_) fun _ => rfl
  cases t with
  | nil => cases hb
  | cons b t =>
    have hinteger := read_integer (w ++ [b]) t
    rw [List.append_assoc, List.length_append, List.length_singleton] at hinteger
    exact hinteger

/-- Behind some text the matcher reads the fraction that follows. -/
theorem matchFraction_eq_some_iff : matchFraction (w ++ t) w.length = some q ↔
    ∃ f rest, IsFraction f rest ∧ t = f ++ rest ∧ q = (w ++ f).length := by
  have hhead : ∀ rest : Text, (∀ b, rest.head? = some b → decide (b = point) = false) ↔
      rest.head? ≠ some point := by
    refine fun rest => ⟨fun h hpoint => ?_, fun h b hb => decide_eq_false ?_⟩
    · cases h point hpoint
    · rintro rfl
      exact h hb
  rw [matchFraction_append_length]
  refine (read_piece (fun b => b = point) (by decide) digitsLength_eq_some_iff).trans ?_
  simp only [hhead]
  rfl

/-- Behind some text the matcher reads the exponent that follows. -/
theorem matchExponent_eq_some_iff (hw : w ≠ []) : matchExponent (w ++ t) w.length = some q ↔
    ∃ e rest, IsExponent e rest ∧ t = e ++ rest ∧ q = (w ++ e).length := by
  rw [matchExponent_append_length hw]
  exact read_piece isMark (by decide) integerLength_eq_some_iff

/-- The matcher reads a number piece by piece. -/
theorem matchNumber_eq_some_iff_pieces : matchNumber u = some n ↔
    ∃ i f e rest, NumberPieces i f e rest ∧ u = i ++ (f ++ e) ++ rest ∧
      n = (i ++ (f ++ e)).length := by
  rw [matchNumber_eq, Option.bind_eq_some_iff]
  constructor
  · rintro ⟨pos, hpos, h⟩
    obtain ⟨i, t, hi, hdigit, rfl, rfl⟩ := integerLength_eq_some_iff.1 hpos
    obtain ⟨q, hfraction, hexponent⟩ := Option.bind_eq_some_iff.1 h
    obtain ⟨f, t, hf, rfl, rfl⟩ := matchFraction_eq_some_iff.1 hfraction
    have hne : i ++ f ≠ [] := List.append_ne_nil_of_left_ne_nil (ne_nil_of_mem_integers hi) f
    rw [← List.append_assoc] at hexponent
    obtain ⟨e, rest, he, rfl, rfl⟩ := (matchExponent_eq_some_iff hne).1 hexponent
    refine ⟨i, f, e, rest, ⟨hi, hdigit, hf, he⟩, ?_, ?_⟩
    · simp only [List.append_assoc]
    · rw [List.append_assoc]
  · rintro ⟨i, f, e, rest, h, rfl, rfl⟩
    have hne : i ++ f ≠ [] :=
      List.append_ne_nil_of_left_ne_nil (ne_nil_of_mem_integers h.integer) f
    refine ⟨i.length, integerLength_eq_some_iff.2 ⟨i, _, h.integer, h.noDigit, ?_, rfl⟩, ?_⟩
    · simp only [List.append_assoc]
    · refine Option.bind_eq_some_iff.2 ⟨(i ++ f).length, ?_, ?_⟩
      · rw [List.append_assoc, List.append_assoc]
        exact matchFraction_eq_some_iff.2 ⟨f, _, h.fraction, rfl, rfl⟩
      · rw [← List.append_assoc, List.append_assoc (i ++ f)]
        exact (matchExponent_eq_some_iff hne).2 ⟨e, rest, h.exponent, rfl, rfl⟩

/-- `polycall_tokenizer_match_number` matches the number in front of the text. -/
theorem matchNumber_eq_some_iff_lexeme : matchNumber u = some n ↔ NumberLexeme u n := by
  rw [matchNumber_eq_some_iff_pieces]
  constructor
  · rintro ⟨i, f, e, rest, h, rfl, rfl⟩
    exact h.lexeme
  · exact NumberLexeme.exists_pieces

end Numbers

/-! ## Strings -/

/-- A character of a string that stands for itself. -/
def plain : Language UInt8 := symbol fun b => b ≠ quote && b ≠ backslash && b ≠ nul

/-- A backslash and the character behind it. -/
def escape : Language UInt8 := symbol (fun b => b = backslash) * symbol fun b => b ≠ nul

/-- A quote, characters and escapes, and a quote. -/
def strings : Language UInt8 :=
  symbol (fun b => b = quote) * (plain + escape)∗ * symbol fun b => b = quote

/-- The string in front of a text. -/
structure StringLexeme (u : Text) (n : ℕ) : Prop where
  le : n ≤ u.length
  mem : u.take n ∈ strings

/-- What is in front of the closing quote, behind a backslash or not. -/
def inside (escaped : Bool) : Language UInt8 :=
  if escaped then symbol (fun b => b ≠ nul) * (plain + escape)∗ else (plain + escape)∗

section Strings

variable {w u t : Text} {b : UInt8} {escaped : Bool} {m n : ℕ}

/-- A string is what lies between two quotes. -/
theorem mem_strings :
    w ∈ strings ↔ ∃ body ∈ inside false, w = quote :: (body ++ [quote]) := by
  rw [strings, Language.mem_mul]
  constructor
  · rintro ⟨x, hx, y, ⟨b, hb, rfl⟩, rfl⟩
    obtain ⟨z, ⟨c, hc, rfl⟩, body, hbody, rfl⟩ := Language.mem_mul.1 hx
    obtain rfl := of_decide_eq_true hb
    obtain rfl := of_decide_eq_true hc
    exact ⟨body, hbody, rfl⟩
  · rintro ⟨body, hbody, rfl⟩
    have hquote : [quote] ∈ symbol fun b => decide (b = quote) := ⟨quote, decide_eq_true rfl, rfl⟩
    exact ⟨quote :: body, Language.append_mem_mul hquote hbody, [quote], hquote, rfl⟩

/-- Behind a backslash, something has to follow. -/
theorem nil_mem_inside : [] ∈ inside escaped ↔ escaped = false := by
  cases escaped with
  | false => exact iff_of_true (Language.nil_mem_kstar _) rfl
  | true =>
    refine iff_of_false (fun h => ?_) Bool.noConfusion
    obtain ⟨x, ⟨b, -, rfl⟩, y, -, heq⟩ := Language.mem_mul.1 h
    cases heq

/-- What is read of a string character by character. -/
theorem cons_mem_inside : b :: w ∈ inside escaped ↔
    b ≠ nul ∧ (escaped = true ∨ b ≠ quote) ∧ w ∈ inside (!escaped && b = backslash) := by
  cases escaped with
  | true =>
    refine Language.mem_mul.trans ⟨?_, ?_⟩
    · rintro ⟨x, ⟨c, hc, rfl⟩, y, hy, heq⟩
      obtain ⟨rfl, rfl⟩ := List.cons.inj heq
      exact ⟨of_decide_eq_true hc, .inl rfl, hy⟩
    · rintro ⟨hnul, -, hw⟩
      exact ⟨[b], ⟨b, decide_eq_true hnul, rfl⟩, w, hw, rfl⟩
  | false =>
    refine cons_mem_kstar.trans ⟨?_, ?_⟩
    · rintro ⟨x, y, rfl, hx | hx, hy⟩
      · obtain ⟨c, hc, heq⟩ := hx
        obtain ⟨rfl, rfl⟩ := List.cons.inj heq
        simp only [ne_eq, decide_not, Bool.and_eq_true, Bool.not_eq_true', decide_eq_false_iff_not]
          at hc
        refine ⟨hc.2, .inr hc.1.1, ?_⟩
        rw [decide_eq_false hc.1.2]
        exact hy
      · obtain ⟨z, ⟨c, hc, rfl⟩, v, ⟨d, hd, rfl⟩, heq⟩ := Language.mem_mul.1 hx
        obtain ⟨rfl, rfl⟩ := List.cons.inj heq
        obtain rfl := of_decide_eq_true hc
        exact ⟨by decide, .inr (by decide),
          Language.append_mem_mul ⟨d, hd, rfl⟩ hy⟩
    · rintro ⟨hnul, hquote, hw⟩
      have hquote := hquote.resolve_left Bool.noConfusion
      by_cases hslash : b = backslash
      · -- The backslash escapes the character that follows.
        rw [decide_eq_true hslash] at hw
        obtain ⟨x, ⟨d, hd, rfl⟩, y, hy, rfl⟩ := Language.mem_mul.1 hw
        exact ⟨[d], y, rfl, .inr ⟨[b], ⟨b, decide_eq_true hslash, rfl⟩, [d], ⟨d, hd, rfl⟩, rfl⟩, hy⟩
      · rw [decide_eq_false hslash] at hw
        refine ⟨[], w, rfl, .inl ⟨b, ?_, rfl⟩, hw⟩
        simp only [hquote, hslash, hnul, ne_eq, not_false_eq_true, decide_true, Bool.and_self]

/-- The closing quote is the one behind what is inside. -/
theorem closingQuote_eq_some_iff : closingQuote escaped u = some m ↔
    ∃ body rest, body ∈ inside escaped ∧ u = body ++ quote :: rest ∧ m = body.length := by
  -- The induction is on the text, for both values of `escaped`, which each byte sets anew.
  induction u generalizing escaped m with
  | nil =>
    refine iff_of_false (fun h => Option.some_ne_none m h.symm) ?_
    rintro ⟨body, rest, -, heq, -⟩
    exact List.append_ne_nil_of_right_ne_nil body (List.cons_ne_nil _ _) heq.symm
  | cons b u ih =>
    rw [closingQuote]
    -- The search goes on behind a byte that neither ends the text nor closes the string.
    by_cases hgoes : b ≠ nul ∧ (escaped = true ∨ b ≠ quote)
    · rw [if_neg hgoes.1, if_pos hgoes.2, Option.map_eq_some_iff]
      constructor
      · rintro ⟨k, hk, rfl⟩
        obtain ⟨body, rest, hbody, rfl, rfl⟩ := ih.1 hk
        exact ⟨b :: body, rest, cons_mem_inside.2 ⟨hgoes.1, hgoes.2, hbody⟩, rfl, rfl⟩
      · rintro ⟨body, rest, hbody, heq, rfl⟩
        cases body with
        | nil =>
          obtain rfl := (List.cons.inj heq).1
          rw [nil_mem_inside.1 hbody] at hgoes
          exact absurd rfl (hgoes.2.resolve_left Bool.noConfusion)
        | cons c body =>
          obtain ⟨rfl, rfl⟩ := List.cons.inj heq
          exact ⟨body.length, ih.2 ⟨body, rest, (cons_mem_inside.1 hbody).2.2, rfl, rfl⟩, rfl⟩
    · -- Here the string ends, or the text.
      have hends : ∀ body rest, body ∈ inside escaped → b :: u = body ++ quote :: rest →
          body = [] ∧ b = quote := by
        intro body rest hbody heq
        cases body with
        | nil => exact ⟨rfl, (List.cons.inj heq).1⟩
        | cons c body =>
          obtain rfl := (List.cons.inj heq).1
          have hcons := cons_mem_inside.1 hbody
          exact absurd ⟨hcons.1, hcons.2.1⟩ hgoes
      by_cases hnul : b = nul
      · rw [if_pos hnul]
        refine iff_of_false (fun h => Option.some_ne_none m h.symm) ?_
        rintro ⟨body, rest, hbody, heq, -⟩
        have hquote := (hends body rest hbody heq).2
        rw [hnul] at hquote
        exact absurd hquote (by decide)
      · have hquote : ¬ (escaped = true ∨ b ≠ quote) := fun h => hgoes ⟨hnul, h⟩
        rw [if_neg hnul, if_neg hquote, Option.some_inj]
        obtain ⟨hescaped, hb⟩ := not_or.1 hquote
        constructor
        · rintro rfl
          refine ⟨[], u, nil_mem_inside.2 (Bool.eq_false_iff.2 hescaped), ?_, rfl⟩
          rw [not_not.1 hb]
          rfl
        · rintro ⟨body, rest, hbody, heq, rfl⟩
          rw [(hends body rest hbody heq).1]
          rfl

/-- The loop ends at the closing quote, or at no quote. -/
theorem stringEnd_eq (w t : Text) (escaped : Bool) :
    (if byteAt (w ++ t) (stringEnd escaped w.length t) = quote then
        some (stringEnd escaped w.length t + 1)
      else none) = (closingQuote escaped t).map (w.length + 1 + ·) := by
  -- The induction is on what is still to be read, for all that was read before.
  induction t generalizing w escaped with
  | nil =>
    have hbyte : byteAt (w ++ []) w.length = nul := by
      rw [List.append_nil, byteAt_of_le (Nat.le_refl _)]
    rw [stringEnd, hbyte, if_neg (by decide)]
    rfl
  | cons b t ih =>
    have hbyte := byteAt_append_length w (b :: t) 0
    rw [Nat.add_zero] at hbyte
    rw [stringEnd, closingQuote]
    -- The loop goes on behind this byte, or ends at it.
    by_cases hgoes : b ≠ nul ∧ (escaped = true ∨ b ≠ quote)
    · rw [if_pos hgoes, if_neg hgoes.1, if_pos hgoes.2, Option.map_map]
      have hescaped : (if escaped = true then false else decide (b = backslash)) =
          (!escaped && decide (b = backslash)) := by
        cases escaped <;> rfl
      have hnext := ih (w ++ [b]) (!escaped && decide (b = backslash))
      rw [List.append_assoc, List.length_append, List.length_singleton] at hnext
      rw [hescaped]
      refine hnext.trans (congrArg (Option.map · _) ?_)
      funext k
      show w.length + 1 + 1 + k = w.length + 1 + (k + 1)
      omega
    · rw [if_neg hgoes, hbyte]
      by_cases hnul : b = nul
      · have hne : nul ≠ quote := by decide
        have hbyte : byteAt (b :: t) 0 ≠ quote := fun h => hne (hnul.symm.trans h)
        rw [if_pos hnul, if_neg hbyte]
        rfl
      · have hquote : ¬ (escaped = true ∨ b ≠ quote) := fun h => hgoes ⟨hnul, h⟩
        have hbyte : byteAt (b :: t) 0 = quote := not_not.1 (not_or.1 hquote).2
        rw [if_neg hnul, if_neg hquote, if_pos hbyte]
        rfl

/-- The string with its result stored is the one of the matcher. -/
theorem storeString_eq (input : Text) (length : ℕ) :
    storeString input length = stored (matchString input) length := by
  unfold storeString matchString
  by_cases hquote : byteAt input 0 = quote
  · rw [if_neg (not_not.2 hquote), if_pos hquote]
    cases input with
    | nil => exact absurd hquote (by decide)
    | cons b input =>
      have hend := stringEnd_eq [b] input false
      rw [List.length_singleton] at hend
      have hmap : (closingQuote false input).map (· + 2) =
          (closingQuote false input).map (1 + 1 + ·) := by
        congr 1
        funext k
        exact Nat.add_comm k 2
      rw [List.drop_one, List.tail_cons, hmap, ← hend]
      dsimp only [List.singleton_append]
      split_ifs <;> rfl
  · rw [if_pos hquote, if_neg hquote]
    rfl

/-- `polycall_tokenizer_match_string` matches the string in front of the text. -/
theorem matchString_eq_some_iff_lexeme : matchString u = some n ↔ StringLexeme u n := by
  unfold matchString
  constructor
  · intro h
    split_ifs at h with hquote
    obtain ⟨k, hk, rfl⟩ := Option.map_eq_some_iff.1 h
    obtain ⟨body, rest, hbody, heq, rfl⟩ := closingQuote_eq_some_iff.1 hk
    cases u with
    | nil => exact absurd hquote (by decide)
    | cons b u =>
      obtain rfl : b = quote := hquote
      obtain rfl : u = body ++ quote :: rest := heq
      have hsplit : quote :: (body ++ quote :: rest) = quote :: (body ++ [quote]) ++ rest := by
        rw [List.cons_append, List.append_assoc]
        rfl
      have hlength : body.length + 2 = (quote :: (body ++ [quote])).length := by
        rw [List.length_cons, List.length_append, List.length_singleton]
      rw [hsplit, hlength]
      refine ⟨?_, ?_⟩
      · rw [List.length_append]
        exact Nat.le_add_right _ _
      · rw [List.take_left]
        exact mem_strings.2 ⟨body, hbody, rfl⟩
  · intro h
    obtain ⟨body, hbody, heq⟩ := mem_strings.1 h.mem
    have hlength := congrArg List.length heq
    rw [List.length_take, Nat.min_eq_left h.le, List.length_cons, List.length_append,
      List.length_singleton] at hlength
    have hsplit := List.take_append_drop n u
    rw [heq, List.cons_append, List.append_assoc] at hsplit
    have hquote : byteAt u 0 = quote := by rw [← hsplit]; rfl
    rw [if_pos hquote, Option.map_eq_some_iff]
    refine ⟨body.length, ?_, hlength.symm⟩
    rw [closingQuote_eq_some_iff]
    exact ⟨body, u.drop n, hbody, (congrArg (List.drop 1) hsplit).symm, rfl⟩

end Strings

/-! ## Both matchers -/

/-- A matcher returns `true` just if it has found a length, which it stores. -/
theorem stored_eq_iff {found : Option ℕ} {length n : ℕ} :
    stored found length = (true, n) ↔ found = some n := by
  cases found with
  | none =>
    refine iff_of_false (fun h => ?_) fun h => Option.some_ne_none n h.symm
    exact Bool.false_ne_true (congrArg Prod.fst h)
  | some m =>
    constructor
    · intro h
      rw [show m = n from congrArg Prod.snd h]
    · intro h
      rw [Option.some.inj h]
      rfl

/-- A matcher that returns `false` leaves `*length`. -/
theorem stored_of_false {found : Option ℕ} {length : ℕ} (h : (stored found length).1 = false) :
    (stored found length).2 = length := by
  cases found with
  | none => rfl
  | some m => cases h

/-- The matchers match a number and a string exactly where the text starts with one, and leave
`*length` alone where it does not. -/
theorem literals_exact (s behind : Text) (length n : ℕ) :
    (storeNumber (s ++ nul :: behind) length = (true, n) ↔ NumberLexeme s n) ∧
      (storeString (s ++ nul :: behind) length = (true, n) ↔ StringLexeme s n) ∧
      (∀ m, StringLexeme s n → StringLexeme s m → n = m) ∧
      ((storeNumber (s ++ nul :: behind) length).1 = false →
        (storeNumber (s ++ nul :: behind) length).2 = length) ∧
      ((storeString (s ++ nul :: behind) length).1 = false →
        (storeString (s ++ nul :: behind) length).2 = length) := by
  rw [storeNumber_eq, storeString_eq, local_matchNumber.stops, local_matchString.stops,
    stored_eq_iff, stored_eq_iff]
  refine ⟨matchNumber_eq_some_iff_lexeme, matchString_eq_some_iff_lexeme, fun m hn hm => ?_,
    stored_of_false, stored_of_false⟩
  rw [← matchString_eq_some_iff_lexeme] at hn hm
  exact Option.some.inj (hn.symm.trans hm)

end LibPolyCall.Tokenizer
