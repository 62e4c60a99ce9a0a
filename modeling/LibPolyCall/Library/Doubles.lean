import LibPolyCall.Library.Spans

/-!
# What `strtod` reads

`strtod` skips white space and takes the longest text behind it that has the form of a number
(`subject`): a sign, and a decimal number with a point and an exponent, a hexadecimal one behind
`0x`, `infinity` or `nan`. How such a text is rounded to a double is a parameter. `subject_decimal`
says what is taken of a text that starts with a digit.
-/

namespace Scan

/-- `isxdigit`. -/
def isHexDigit (b : UInt8) : Bool := isDigit b || (65 ≤ b && b ≤ 70) || (97 ≤ b && b ≤ 102)

/-- A capital letter as a small one. -/
def lower (b : UInt8) : UInt8 := if 65 ≤ b ∧ b ≤ 90 then b + 32 else b

/-- A text starts with this word of small letters, in whatever case. -/
def StartsWith (word t : Text) : Prop := (t.take word.length).map lower = word

/-- Whether a text starts with a word is decided by comparing the two. -/
instance (word t : Text) : Decidable (StartsWith word t) := inferInstanceAs (Decidable (_ = _))

/-- How long the sign in front of a text is. -/
def signLength (t : Text) : ℕ := if t.head? = some 45 ∨ t.head? = some 43 then 1 else 0

/-- How long the digits in front of a text are, with a point that stands in front of, between or
behind them. Without a digit this is zero. -/
def mantissaLength (digit : UInt8 → Bool) (t : Text) : ℕ :=
  let whole := (t.takeWhile digit).length
  let fraction := ((t.drop (whole + 1)).takeWhile digit).length
  if (t.drop whole).head? = some 46 ∧ 0 < whole + fraction then whole + 1 + fraction else whole

/-- How long the exponent in front of a text is, with this small letter as its mark. -/
def exponentLength (mark : UInt8) (t : Text) : ℕ :=
  if t.head? = some mark ∨ t.head? = some (mark - 32) then
    let start := 1 + signLength (t.drop 1)
    let digits := ((t.drop start).takeWhile isDigit).length
    if digits = 0 then 0 else start + digits
  else 0

/-- How long the number in front of a text is. -/
def numberLength (digit : UInt8 → Bool) (mark : UInt8) (t : Text) : ℕ :=
  let mantissa := mantissaLength digit t
  if mantissa = 0 then 0 else mantissa + exponentLength mark (t.drop mantissa)

/-- How long the `nan` in front of a text is, with the text in parentheses that may follow it. -/
def nanLength (t : Text) : ℕ :=
  let chars := ((t.drop 4).takeWhile fun b => isAlnum b || b = 95).length
  if (t.drop 3).head? = some 40 ∧ (t.drop (4 + chars)).head? = some 41 then 5 + chars else 3

/-- How much `strtod` takes behind the sign. -/
def unsignedLength (t : Text) : ℕ :=
  if StartsWith (lit "infinity") t then 8
  else if StartsWith (lit "inf") t then 3
  else if StartsWith (lit "nan") t then nanLength t
  else if StartsWith (lit "0x") t ∧ 0 < numberLength isHexDigit 112 (t.drop 2) then
    2 + numberLength isHexDigit 112 (t.drop 2)
  else numberLength isDigit 101 t

/-- The text that `strtod` converts, from its sign on. -/
def subject (t : Text) : Text :=
  let body := t.dropWhile isSpace
  let unsigned := unsignedLength (body.drop (signLength body))
  if unsigned = 0 then [] else body.take (signLength body + unsigned)

/-- `strtod(t, NULL)`: the bits of a double. -/
def strtod (convert : Text → UInt64) (t : Text) : UInt64 :=
  if subject t = [] then 0 else convert (subject t)

/-- The integer that is written by a sign and digits. -/
def integerValue (t : Text) : ℤ :=
  if t.head? = some 45 then -digitsValue (t.drop (signLength t))
  else digitsValue (t.drop (signLength t))

/-- Digits without a point go as far as they go, and others go on behind them. -/
theorem mantissaLength_cases (digit : UInt8 → Bool) (t : Text) :
    mantissaLength digit t = (t.takeWhile digit).length ∨
      (t.drop (t.takeWhile digit).length).head? = some 46 ∧
        (t.takeWhile digit).length < mantissaLength digit t := by
  unfold mantissaLength
  dsimp only
  split_ifs with h
  · exact .inr ⟨h.1, by omega⟩
  · exact .inl rfl

/-- Without its mark there is no exponent. -/
theorem exponentLength_cases (mark : UInt8) (t : Text) :
    exponentLength mark t = 0 ∨ t.head? = some mark ∨ t.head? = some (mark - 32) := by
  unfold exponentLength
  split_ifs with h
  · exact .inr h
  · exact .inl rfl

section Numbers

variable {t : Text}

/-- A text with a digit behind its sign, if it has one, starts with no white space. -/
theorem dropWhile_isSpace_of_digit {b : UInt8} (hb : (t.drop (signLength t)).head? = some b)
    (hdigit : isDigit b = true) : t.dropWhile isSpace = t := by
  cases t with
  | nil => rfl
  | cons a t =>
    refine List.dropWhile_cons_of_neg ?_
    unfold signLength at hb
    split_ifs at hb with hsign
    · rcases hsign with h | h
      · obtain rfl := Option.some.inj h
        decide
      · obtain rfl := Option.some.inj h
        decide
    · obtain rfl := Option.some.inj hb
      simp [isSpace_of_isDigit hdigit]

/-- A digit is no letter. -/
theorem lower_of_isDigit {b : UInt8} (hdigit : isDigit b = true) : lower b = b := by
  refine if_neg fun hletter => ?_
  have hle := (Bool.and_eq_true_iff.1 hdigit).2
  simp only [decide_eq_true_eq, UInt8.le_iff_toNat_le] at hle hletter
  have h57 : (57 : UInt8).toNat = 57 := rfl
  have h65 : (65 : UInt8).toNat = 65 := rfl
  omega

/-- A letter and its capital. -/
theorem lower_eq_x_iff {b : UInt8} : lower b = 120 ↔ b = 120 ∨ b = 88 := by
  constructor
  · intro h
    unfold lower at h
    split_ifs at h with hletter
    · right
      have hnat := congrArg UInt8.toNat h
      simp only [UInt8.le_iff_toNat_le] at hletter
      have h65 : (65 : UInt8).toNat = 65 := rfl
      have h90 : (90 : UInt8).toNat = 90 := rfl
      have h32 : (32 : UInt8).toNat = 32 := rfl
      have h120 : (120 : UInt8).toNat = 120 := rfl
      rw [UInt8.toNat_add, h32, h120] at hnat
      refine UInt8.toNat_inj.1 ?_
      show b.toNat = 88
      omega
    · exact .inl h
  · rintro (rfl | rfl) <;> decide

/-- A text that starts as a hexadecimal number, with a digit. -/
theorem exists_of_startsWith_hex (hhex : StartsWith (lit "0x") t) {b : UInt8}
    (hb : t.head? = some b) (hdigit : isDigit b = true) :
    ∃ c rest, t = 48 :: c :: rest ∧ (c = 120 ∨ c = 88) := by
  cases t with
  | nil => cases hb
  | cons a t =>
    obtain rfl := Option.some.inj hb
    cases t with
    | nil => exact absurd (congrArg List.length hhex) (by simp [lit])
    | cons c rest =>
      obtain ⟨ha, hrest⟩ := List.cons.inj hhex
      rw [lower_of_isDigit hdigit] at ha
      exact ⟨c, rest, by rw [ha]; rfl, lower_eq_x_iff.1 (List.cons.inj hrest).1⟩

/-- A digit is a letter of no word. -/
theorem not_startsWith_of_digit {b c : UInt8} {word : Text} (hb : t.head? = some b)
    (hdigit : isDigit b = true) (hc : isDigit c = false) : ¬StartsWith (c :: word) t := by
  cases t with
  | nil => cases hb
  | cons a t =>
    obtain rfl := Option.some.inj hb
    intro h
    have hlower : lower a = c := (List.cons.inj h).1
    rw [← hlower, lower_of_isDigit hdigit, hdigit] at hc
    cases hc

/-- Of a text with a digit behind its sign `strtod` takes the decimal number, unless it starts as a
hexadecimal one. -/
theorem subject_decimal {b : UInt8} (hb : (t.drop (signLength t)).head? = some b)
    (hdigit : isDigit b = true) (hhex : ¬StartsWith (lit "0x") (t.drop (signLength t)))
    (hpos : 0 < numberLength isDigit 101 (t.drop (signLength t))) :
    subject t = t.take (signLength t + numberLength isDigit 101 (t.drop (signLength t))) := by
  have hinfinity : ¬StartsWith (lit "infinity") (t.drop (signLength t)) :=
    not_startsWith_of_digit hb hdigit (c := 105) rfl
  have hinf : ¬StartsWith (lit "inf") (t.drop (signLength t)) :=
    not_startsWith_of_digit hb hdigit (c := 105) rfl
  have hnan : ¬StartsWith (lit "nan") (t.drop (signLength t)) :=
    not_startsWith_of_digit hb hdigit (c := 110) rfl
  have hunsigned : unsignedLength (t.drop (signLength t)) =
      numberLength isDigit 101 (t.drop (signLength t)) := by
    rw [unsignedLength, if_neg hinfinity, if_neg hinf, if_neg hnan, if_neg (fun h => hhex h.1)]
  rw [subject, dropWhile_isSpace_of_digit hb hdigit]
  rw [hunsigned, if_neg hpos.ne']

/-- The number that `strtoll` returns for a text with a digit behind its sign. -/
theorem strtoll_of_digit {b : UInt8} (hb : (t.drop (signLength t)).head? = some b)
    (hdigit : isDigit b = true) :
    strtoll t = max (-2 ^ 63) (min (2 ^ 63 - 1)
      (integerValue (t.take (signLength t +
        ((t.drop (signLength t)).takeWhile isDigit).length)))) := by
  set digits := (t.drop (signLength t)).takeWhile isDigit with hdigits
  have hpos : 0 < digits.length := by
    rw [List.length_pos_iff, hdigits]
    intro hnil
    cases hu : t.drop (signLength t) with
    | nil => rw [hu] at hb; cases hb
    | cons a u =>
      rw [hu] at hb hnil
      obtain rfl := Option.some.inj hb
      rw [List.takeWhile_cons_of_pos hdigit] at hnil
      cases hnil
  set w := t.take (signLength t + digits.length) with hw
  have hhead : w.head? = t.head? := by
    rw [hw, List.head?_take, if_neg (by omega)]
  have hsign : signLength w = signLength t := by rw [signLength, signLength, hhead]
  have hvalue : w.drop (signLength w) = digits := by
    rw [hsign, hw, List.drop_take, Nat.add_sub_cancel_left]
    exact (List.prefix_iff_eq_take.1 (List.takeWhile_prefix isDigit)).symm
  have hunsigned : (if t.head? = some 45 ∨ t.head? = some 43 then t.drop 1 else t) =
      t.drop (signLength t) := by
    unfold signLength
    split_ifs <;> rfl
  rw [strtoll, integerValue, dropWhile_isSpace_of_digit hb hdigit, hhead, hvalue]
  rw [hunsigned, ← hdigits]

end Numbers

end Scan
