import Mathlib.Data.List.DropRight
import Mathlib.Data.List.GetD
import Mathlib.Tactic.Common
import Mathlib.Tactic.Ring

/-!
# Scanning texts

The text functions of the C library in the `C` locale, on byte strings without their terminator:
the character classes of `ctype.h`, the text before and after a separator, trimming, the words that
`%Ns` conversions of `sscanf` store, `strtoul` in base 10, and the decimal digits that `%u` prints.
Texts that are already trimmed, and words and numbers that were printed, are read back as they are.
-/

namespace Scan

/-- A text, as the bytes before its terminator. -/
abbrev Text := List UInt8

/-- The text of a literal, in ASCII. -/
def lit (s : String) : Text := s.toList.map fun c => UInt8.ofNat c.toNat

/-- `'\0'`. -/
def nul : UInt8 := 0

/-- `'\n'`. -/
def newline : UInt8 := 10

/-- `isspace`: a blank, or one of the bytes from `'\t'` to `'\r'`. -/
def isSpace (b : UInt8) : Bool := b = 32 || (9 ≤ b && b ≤ 13)

/-- `isdigit`. -/
def isDigit (b : UInt8) : Bool := 48 ≤ b && b ≤ 57

/-- `isalnum`. -/
def isAlnum (b : UInt8) : Bool := isDigit b || (65 ≤ b && b ≤ 90) || (97 ≤ b && b ≤ 122)

/-- A newline is white space. -/
theorem isSpace_newline : isSpace newline = true := by decide

/-- A digit is no white space. -/
theorem isSpace_of_isDigit {b : UInt8} (h : isDigit b = true) : isSpace b = false := by
  simp only [isDigit, isSpace, Bool.and_eq_true, decide_eq_true_eq, UInt8.le_iff_toNat_le] at h ⊢
  have h48 : (48 : UInt8).toNat = 48 := rfl
  have h13 : (13 : UInt8).toNat = 13 := rfl
  have h32 : b ≠ 32 := by
    rintro rfl
    exact absurd h.1 (by decide)
  simp only [h32, decide_false, Bool.false_or, Bool.and_eq_false_iff, decide_eq_false_iff_not]
  omega

/-- `t[i]`. -/
def byteAt (t : Text) (i : ℕ) : UInt8 := t.getD i nul

/-- Behind a text the bytes are those of the rest. -/
theorem byteAt_append_length (front rest : Text) (k : ℕ) :
    byteAt (front ++ rest) (front.length + k) = byteAt rest k := by
  unfold byteAt
  rw [List.getD_append_right _ _ _ _ (Nat.le_add_right _ _), Nat.add_sub_cancel_left]

/-! ## Separators -/

/-- The text before the first `c`: what is left when `*strchr(t, c)` is overwritten by zero. -/
def before (c : UInt8) (t : Text) : Text := t.takeWhile (· ≠ c)

/-- The text after the first `c`: `strchr(t, c) + 1`. -/
def after (c : UInt8) (t : Text) : Text := (t.dropWhile (· ≠ c)).drop 1

/-- A byte that is neither in a text nor the one that is put behind it. -/
theorem notMem_concat {b c : UInt8} {t : Text} (hbc : b ≠ c) (h : b ∉ t) : b ∉ t ++ [c] := by
  rw [List.mem_append, List.mem_singleton, not_or]
  exact ⟨h, hbc⟩

/-- The text before the first separator has none. -/
theorem notMem_before (c : UInt8) (t : Text) : c ∉ before c t := fun h => by
  simpa using List.mem_takeWhile_imp h

/-- The text before a separator is part of the text. -/
theorem mem_of_mem_before {b c : UInt8} {t : Text} (h : b ∈ before c t) : b ∈ t :=
  (List.takeWhile_sublist _).subset h

/-- The text behind a separator is part of the text. -/
theorem mem_of_mem_after {b c : UInt8} {t : Text} (h : b ∈ after c t) : b ∈ t :=
  ((List.drop_sublist _ _).trans (List.dropWhile_sublist _)).subset h

/-- A text without the separator is all before it. -/
theorem before_eq_self {c : UInt8} {t : Text} (h : c ∉ t) : before c t = t :=
  List.takeWhile_eq_self_iff.2 fun _ hb => decide_eq_true fun hbc => h (hbc ▸ hb)

/-- What follows the first separator does not matter. -/
theorem before_append_of_mem {c : UInt8} {t : Text} (h : c ∈ t) (u : Text) :
    before c (t ++ u) = before c t := by
  induction t with
  | nil => cases h
  | cons b t ih =>
    by_cases hb : b = c
    · rw [before, before, List.cons_append, List.takeWhile_cons_of_neg (by simpa using hb),
        List.takeWhile_cons_of_neg (by simpa using hb)]
    · have hmem : c ∈ t := (List.mem_cons.1 h).resolve_left (Ne.symm hb)
      rw [before, before, List.cons_append, List.takeWhile_cons_of_pos (by simpa using hb),
        List.takeWhile_cons_of_pos (by simpa using hb)]
      exact congrArg (b :: ·) (ih hmem)

/-- What is put in front of a separator is what comes before it. -/
theorem before_append_cons {c : UInt8} {t : Text} (h : c ∉ t) (u : Text) :
    before c (t ++ c :: u) = t := by
  have hall : ∀ b ∈ t, decide (b ≠ c) = true := fun b hb =>
    decide_eq_true fun hbc => h (hbc ▸ hb)
  rw [before, List.takeWhile_append_of_pos hall, List.takeWhile_cons_of_neg (by simp),
    List.append_nil]

/-- What follows a separator that is put behind a text does not matter. -/
theorem before_append_cons_eq (c : UInt8) (t u : Text) : before c (t ++ c :: u) = before c t := by
  by_cases h : c ∈ t
  · exact before_append_of_mem h _
  · rw [before_append_cons h, before_eq_self h]

/-- What is put behind a separator is what comes after it. -/
theorem after_append_cons {c : UInt8} {t : Text} (h : c ∉ t) (u : Text) :
    after c (t ++ c :: u) = u := by
  have hall : ∀ b ∈ t, decide (b ≠ c) = true := fun b hb =>
    decide_eq_true fun hbc => h (hbc ▸ hb)
  rw [after, List.dropWhile_append_of_pos hall, List.dropWhile_cons_of_neg (by simp),
    List.drop_one, List.tail_cons]

/-- A text without the separator that something with it starts with is in front of it. -/
theorem prefix_of_prefix_append_cons {c : UInt8} {p t u : Text} (hc : c ∉ p)
    (h : p <+: t ++ c :: u) : p <+: t := by
  induction t generalizing p with
  | nil =>
    cases p with
    | nil => exact List.prefix_rfl
    | cons b p =>
      obtain rfl := (List.cons_prefix_cons.1 h).1
      exact absurd List.mem_cons_self hc
  | cons a t ih =>
    cases p with
    | nil => exact List.nil_prefix
    | cons b p =>
      rw [List.cons_append, List.cons_prefix_cons] at h
      rw [List.cons_prefix_cons]
      exact ⟨h.1, ih (fun hmem => hc (List.mem_cons_of_mem _ hmem)) h.2⟩

/-- `strrchr`: where the last `c` stands. -/
def lastIndex (c : UInt8) (t : Text) : Option ℕ :=
  (t.reverse.idxOf? c).map fun i => t.length - 1 - i

/-- A byte that a text does not have has no last place in it. -/
theorem lastIndex_eq_none {c : UInt8} {t : Text} (h : c ∉ t) : lastIndex c t = none := by
  have hidx : t.reverse.idxOf? c = none := List.idxOf?_eq_none_iff.2 (by simpa using h)
  rw [lastIndex, hidx, Option.map_none]

/-! ## Trimming -/

/-- The text without the white space at its ends. -/
def trim (t : Text) : Text := (t.dropWhile isSpace).rdropWhile isSpace

/-- Trimming adds no bytes. -/
theorem mem_of_mem_trim {b : UInt8} {t : Text} (h : b ∈ trim t) : b ∈ t := by
  have hsub : trim t <+: t.dropWhile isSpace := List.rdropWhile_prefix _ _
  exact (List.dropWhile_sublist _).subset (hsub.subset h)

/-- A text with no white space at its ends. -/
def Trimmed (t : Text) : Prop :=
  (∀ b, t.head? = some b → isSpace b = false) ∧ ∀ b, t.getLast? = some b → isSpace b = false

/-- A text is trimmed just if neither its first nor its last byte is white space. -/
theorem trimmed_iff {t : Text} : Trimmed t ↔
    (t.head?.all fun b => !isSpace b) = true ∧ (t.getLast?.all fun b => !isSpace b) = true := by
  unfold Trimmed
  cases t.head? <;> cases t.getLast? <;> simp

/-- Whether a text is trimmed is read off its two ends. -/
instance (t : Text) : Decidable (Trimmed t) := decidable_of_iff _ trimmed_iff.symm

/-- A trimmed text is trimmed. -/
theorem trimmed_trim (t : Text) : Trimmed (trim t) := by
  refine ⟨fun b hb => ?_, fun b hb => ?_⟩
  · -- The first byte of a nonempty prefix is that of the whole.
    have hfirst : (t.dropWhile isSpace).head? = some b := by
      obtain ⟨s, hs⟩ := List.rdropWhile_prefix isSpace (t.dropWhile isSpace)
      rw [← hs, List.head?_append]
      exact Option.or_eq_some_iff.2 (.inl hb)
    have hne : t.dropWhile isSpace ≠ [] := by
      intro hnil
      rw [hnil] at hfirst
      cases hfirst
    have hhead := List.head_dropWhile_not isSpace hne
    rw [List.head?_eq_some_head hne, Option.some_inj] at hfirst
    rw [← hfirst]
    exact hhead
  · have hne : trim t ≠ [] := by
      intro hnil
      rw [hnil] at hb
      cases hb
    have hlast := List.rdropWhile_last_not isSpace (t.dropWhile isSpace) hne
    rw [List.getLast?_eq_some_getLast hne, Option.some_inj] at hb
    have hb' : (List.rdropWhile isSpace (t.dropWhile isSpace)).getLast hne = b := hb
    rw [hb'] at hlast
    simpa using hlast

/-- Trimming leaves a trimmed text as it is. -/
theorem trim_of_trimmed {t : Text} (h : Trimmed t) : trim t = t := by
  have hfirst : t.dropWhile isSpace = t := by
    cases t with
    | nil => rfl
    | cons b t => rw [List.dropWhile_cons_of_neg (by simp [h.1 b rfl])]
  rw [trim, hfirst, List.rdropWhile_eq_self_iff]
  intro hne
  simp [h.2 _ (List.getLast?_eq_some_getLast hne)]

/-- A newline at the end is trimmed away. -/
theorem trim_append_newline (t : Text) : trim (t ++ [newline]) = trim t := by
  rw [trim, List.dropWhile_append]
  split_ifs with hblank
  · rw [List.isEmpty_iff] at hblank
    rw [trim, hblank, List.dropWhile_cons_of_pos isSpace_newline, List.dropWhile_nil]
  · rw [List.rdropWhile_concat_pos _ _ _ isSpace_newline, trim]

/-- What is in front of a separator of a trimmed text loses white space at its end only. -/
theorem prefix_trim_before {t : Text} (h : Trimmed t) (c : UInt8) : trim (before c t) <+: t := by
  have hfirst : (before c t).dropWhile isSpace = before c t := by
    cases hbefore : before c t with
    | nil => rfl
    | cons b u =>
      have hhead : t.head? = some b := by
        have hsub : before c t <+: t := List.takeWhile_prefix _
        obtain ⟨s, hs⟩ := hsub
        rw [← hs, hbefore]
        rfl
      rw [List.dropWhile_cons_of_neg (by simp [h.1 b hhead])]
  -- The text in front of the separator starts as the whole does, so only its end is trimmed.
  have hend : (before c t).rdropWhile isSpace <+: before c t := List.rdropWhile_prefix _ _
  have hstart : before c t <+: t := List.takeWhile_prefix _
  rw [trim, hfirst]
  exact hend.trans hstart

/-- Two trimmed texts, none of them empty, with something between them. -/
theorem Trimmed.append {t u : Text} (ht : Trimmed t) (hu : Trimmed u) (htne : t ≠ [])
    (hune : u ≠ []) (m : Text) : Trimmed (t ++ m ++ u) := by
  constructor
  · intro b hb
    rw [List.append_assoc, List.head?_append_of_ne_nil _ htne] at hb
    exact ht.1 b hb
  · intro b hb
    rw [List.getLast?_append_of_ne_nil _ hune] at hb
    exact hu.2 b hb

/-- A text without white space is trimmed. -/
theorem trimmed_of_forall {t : Text} (h : ∀ b ∈ t, isSpace b = false) : Trimmed t :=
  ⟨fun b hb => h b (List.mem_of_mem_head? hb), fun b hb => h b (List.mem_of_mem_getLast? hb)⟩

/-! ## Words -/

/-- A `%Ns` conversion: the word it stores, and the text that is left. White space in front of the
word is skipped, and the word ends after `width` bytes. -/
def scanWord (width : ℕ) (t : Text) : Option (Text × Text) :=
  let body := t.dropWhile isSpace
  -- A longer word is left in the text, where the next conversion goes on with it.
  let word := (body.takeWhile fun b => !isSpace b).take width
  if word = [] then none else some (word, body.drop word.length)

/-- The words that successive conversions of these widths store, up to the first that finds
none. -/
def scanWords : List ℕ → Text → List Text
  | [], _ => []
  | width :: widths, t =>
    match scanWord width t with
    | none => []
    | some (word, rest) => word :: scanWords widths rest

/-- `sscanf` with a format that starts with this word. -/
def sscanf (word : Text) (widths : List ℕ) (t : Text) : List Text :=
  if word <+: t then scanWords widths (t.drop word.length) else []

/-- What a conversion stores is a word of the text, no longer than its width. -/
theorem scanWord_eq_some {width : ℕ} {t word rest : Text}
    (h : scanWord width t = some (word, rest)) :
    word ≠ [] ∧ word.length ≤ width ∧ (∀ b ∈ word, isSpace b = false) ∧ (∀ b ∈ word, b ∈ t) ∧
      ∀ b ∈ rest, b ∈ t := by
  unfold scanWord at h
  dsimp only at h
  split_ifs at h with hnil
  obtain ⟨rfl, rfl⟩ := Prod.mk.inj (Option.some.inj h)
  refine ⟨hnil, List.length_take_le _ _, fun b hb => ?_, fun b hb => ?_, fun b hb => ?_⟩
  · simpa using List.mem_takeWhile_imp (List.mem_of_mem_take hb)
  · exact (List.dropWhile_sublist _).subset
      ((List.takeWhile_sublist _).subset (List.mem_of_mem_take hb))
  · exact (List.dropWhile_sublist _).subset (List.mem_of_mem_drop hb)

/-- A word that fits is read up to the white space behind it. -/
theorem scanWord_append {width : ℕ} {word : Text} (hne : word ≠ []) (hwidth : word.length ≤ width)
    (hword : ∀ b ∈ word, isSpace b = false) {spaces : Text}
    (hspaces : ∀ b ∈ spaces, isSpace b = true) {rest : Text}
    (hrest : ∀ b, rest.head? = some b → isSpace b = true) :
    scanWord width (spaces ++ word ++ rest) = some (word, rest) := by
  have hbody : (spaces ++ word ++ rest).dropWhile isSpace = word ++ rest := by
    rw [List.append_assoc, List.dropWhile_append_of_pos hspaces]
    cases word with
    | nil => exact absurd rfl hne
    | cons b word =>
      have hb : ¬isSpace b = true := by simp [hword b List.mem_cons_self]
      rw [List.cons_append, List.dropWhile_cons_of_neg hb]
  have hstop : rest.takeWhile (fun b => !isSpace b) = [] := by
    cases rest with
    | nil => rfl
    | cons b rest => rw [List.takeWhile_cons_of_neg (by simp [hrest b rfl])]
  have htake : (word ++ rest).takeWhile (fun b => !isSpace b) = word := by
    rw [List.takeWhile_append_of_pos fun b hb => by simp [hword b hb], hstop, List.append_nil]
  unfold scanWord
  dsimp only
  rw [hbody, htake, List.take_of_length_le hwidth, if_neg hne, List.drop_left]

/-- There is no word in an empty text. -/
theorem scanWord_nil (width : ℕ) : scanWord width [] = none := by simp [scanWord]

/-! ## Numbers -/

/-- The number that decimal digits denote. -/
def digitsValue (digits : Text) : ℕ :=
  Nat.ofDigitChars 10 (digits.map fun b => Char.ofNat b.toNat) 0

/-- What `strtoul` returns, whether it sets `errno` to `ERANGE`, and the text at `*end`. -/
structure Strtoul where
  value : ℕ
  erange : Bool
  rest : Text
deriving DecidableEq

/-- `strtoul(t, &end, 10)` where `unsigned long` has 64 bits. White space is skipped, a sign is
accepted, and the number after a minus sign is negated modulo `2^64`. -/
def strtoul (t : Text) : Strtoul :=
  let body := t.dropWhile isSpace
  let negative := body.head? = some 45
  let unsigned := if negative ∨ body.head? = some 43 then body.drop 1 else body
  let digits := unsigned.takeWhile isDigit
  let rest := unsigned.dropWhile isDigit
  -- Without a digit nothing is converted, not even the white space or the sign.
  if digits = [] then ⟨0, false, t⟩
  else if 2 ^ 64 ≤ digitsValue digits then ⟨2 ^ 64 - 1, true, rest⟩
  else if negative then ⟨(2 ^ 64 - digitsValue digits) % 2 ^ 64, false, rest⟩
  else ⟨digitsValue digits, false, rest⟩

/-- What `strtoll(t, NULL, 10)` returns where `long long` has 64 bits: the number that the text
starts with, or the nearest one of 64 bits. -/
def strtoll (t : Text) : ℤ :=
  let body := t.dropWhile isSpace
  let negative := body.head? = some 45
  let unsigned := if negative ∨ body.head? = some 43 then body.drop 1 else body
  let magnitude : ℤ := digitsValue (unsigned.takeWhile isDigit)
  max (-2 ^ 63) (min (2 ^ 63 - 1) (if negative then -magnitude else magnitude))

/-- A `%hu` conversion: the number that it stores, and the text that is left. -/
def scanShort (t : Text) : Option (UInt16 × Text) :=
  let number := strtoul t
  if number.rest.length < t.length then some (UInt16.ofNat number.value, number.rest) else none

/-- What `%u` prints. -/
def decimal (n : ℕ) : Text := (Nat.toDigits 10 n).map fun c => UInt8.ofNat c.toNat

/-- A decimal digit as a byte. -/
theorem digit_byte {c : Char} (h : c.isDigit = true) :
    isDigit (UInt8.ofNat c.toNat) = true ∧ Char.ofNat (UInt8.ofNat c.toNat).toNat = c := by
  have hrange : 48 ≤ c.toNat ∧ c.toNat ≤ 57 := by
    simpa [Char.isDigit, UInt32.le_iff_toNat_le] using h
  have hbyte : (UInt8.ofNat c.toNat).toNat = c.toNat := by
    rw [UInt8.toNat_ofNat']
    omega
  rw [hbyte, Char.ofNat_toNat]
  refine ⟨?_, rfl⟩
  have h48 : (48 : UInt8).toNat = 48 := rfl
  have h57 : (57 : UInt8).toNat = 57 := rfl
  simp only [isDigit, Bool.and_eq_true, decide_eq_true_eq, UInt8.le_iff_toNat_le, hbyte]
  omega

/-- A printed number consists of digits. -/
theorem isDigit_of_mem_decimal {n : ℕ} {b : UInt8} (h : b ∈ decimal n) : isDigit b = true := by
  obtain ⟨c, hc, rfl⟩ := List.mem_map.1 h
  exact (digit_byte (Nat.isDigit_of_mem_toDigits (by decide) (by decide) hc)).1

/-- A number has a digit. -/
theorem decimal_ne_nil (n : ℕ) : decimal n ≠ [] := by
  simp [decimal, Nat.toDigits_ne_nil]

/-- A printed number denotes the number. -/
theorem digitsValue_decimal (n : ℕ) : digitsValue (decimal n) = n := by
  have hchars : (decimal n).map (fun b => Char.ofNat b.toNat) = Nat.toDigits 10 n := by
    rw [decimal, List.map_map]
    refine (List.map_congr_left fun c hc => ?_).trans (List.map_id _)
    exact (digit_byte (Nat.isDigit_of_mem_toDigits (by decide) (by decide) hc)).2
  rw [digitsValue, hchars, Nat.ofDigitChars_ten_toDigits]

/-- A number of 64 bits is read back as it was printed. -/
theorem strtoul_decimal {n : ℕ} (hn : n < 2 ^ 64) : strtoul (decimal n) = ⟨n, false, []⟩ := by
  obtain ⟨b, t, hcons⟩ := List.exists_cons_of_ne_nil (decimal_ne_nil n)
  have hdigits : ∀ c ∈ decimal n, isDigit c = true := fun c hc => isDigit_of_mem_decimal hc
  -- A digit comes first, so there is no white space and no sign to skip.
  have hb : isDigit b = true := hdigits b (hcons ▸ List.mem_cons_self)
  have hbody : (decimal n).dropWhile isSpace = decimal n := by
    have hspace : ¬isSpace b = true := by simp [isSpace_of_isDigit hb]
    rw [hcons, List.dropWhile_cons_of_neg hspace]
  have hhead : ∀ c, isDigit c = false → (decimal n).head? ≠ some c := by
    intro c hc heq
    rw [hcons, List.head?_cons, Option.some_inj] at heq
    rw [heq, hc] at hb
    cases hb
  have hminus : (decimal n).head? ≠ some 45 := hhead 45 (by decide)
  have hplus : (decimal n).head? ≠ some 43 := hhead 43 (by decide)
  have htake : (decimal n).takeWhile isDigit = decimal n := List.takeWhile_eq_self_iff.2 hdigits
  have hdrop : (decimal n).dropWhile isDigit = [] := List.dropWhile_eq_nil_iff.2 hdigits
  have hunsigned : (if (decimal n).head? = some 45 ∨ (decimal n).head? = some 43
      then (decimal n).drop 1 else decimal n) = decimal n := if_neg (not_or.2 ⟨hminus, hplus⟩)
  unfold strtoul
  dsimp only
  rw [hbody, hunsigned, htake, hdrop, if_neg (decimal_ne_nil n), digitsValue_decimal,
    if_neg (by omega), if_neg hminus]

end Scan
