import LibPolyCall.Library.Scan

/-!
# What the scanning functions read

A text that is scanned falls into pieces: white space, a word, a number, and what is left. `IsSpan`
is a piece whose bytes are all of one kind, up to a byte that is not, `IsWord` a word as a `%Ns`
conversion stores it, `IsField` a word up to the next white space, and `Numeral` a number with its
sign. `scanWord_eq_some_iff` and
`scanShort_eq_some_iff` say of the conversions that they read just these pieces, and
`strtoul_append` and `exists_numeral` say so of `strtoul`. A text falls into such pieces in one way
only (`IsSpan.unique`, `IsWord.unique`, `Numeral.unique`).
-/

namespace Scan

/-! ## Spans -/

section Spans

variable {α : Type*} {p : α → Bool} {piece rest piece' rest' : List α}

/-- A piece whose elements are all of one kind, up to one that is not. -/
structure IsSpan (p : α → Bool) (piece rest : List α) : Prop where
  all : ∀ b ∈ piece, p b = true
  ends : ∀ b, rest.head? = some b → p b = false

/-- Where the kind first ends. -/
theorem isSpan_takeWhile (p : α → Bool) (l : List α) :
    IsSpan p (l.takeWhile p) (l.dropWhile p) where
  all _ hb := List.mem_takeWhile_imp hb
  ends b hb := by
    have hne : l.dropWhile p ≠ [] := by
      intro hnil
      rw [hnil] at hb
      cases hb
    have hhead := List.head_dropWhile_not p hne
    rw [List.head?_eq_some_head hne, Option.some_inj] at hb
    rw [← hb]
    exact hhead

/-- Dropping what belongs to a span leaves what is behind it. -/
theorem IsSpan.dropWhile (h : IsSpan p piece rest) : (piece ++ rest).dropWhile p = rest := by
  rw [List.dropWhile_append_of_pos h.all]
  cases rest with
  | nil => rfl
  | cons b rest => rw [List.dropWhile_cons_of_neg (by simp [h.ends b rfl])]

/-- Taking what belongs to a span takes the span. -/
theorem IsSpan.takeWhile (h : IsSpan p piece rest) : (piece ++ rest).takeWhile p = piece := by
  have hboth := List.takeWhile_append_dropWhile (p := p) (l := piece ++ rest)
  rw [h.dropWhile] at hboth
  exact List.append_cancel_right hboth

/-- What is all of one kind in front of a text is in front of the span. -/
theorem IsSpan.exists_eq_append (h : IsSpan p piece rest) {w y : List α}
    (hw : ∀ b ∈ w, p b = true) (heq : w ++ y = piece ++ rest) :
    ∃ more, piece = w ++ more ∧ y = more ++ rest := by
  refine ⟨y.takeWhile p, ?_, ?_⟩
  · rw [← h.takeWhile, ← heq, List.takeWhile_append_of_pos hw]
  · rw [← h.dropWhile, ← heq, List.dropWhile_append_of_pos hw, List.takeWhile_append_dropWhile]

/-- A text has one span of a kind in front. -/
theorem IsSpan.unique (h : IsSpan p piece rest) (h' : IsSpan p piece' rest')
    (heq : piece ++ rest = piece' ++ rest') : piece = piece' ∧ rest = rest' := by
  constructor
  · rw [← h.takeWhile, heq, h'.takeWhile]
  · rw [← h.dropWhile, heq, h'.dropWhile]

end Spans

/-- A text is white space. -/
def Blank (t : Text) : Prop := ∀ b ∈ t, isSpace b = true

/-- Whether a text is blank is decided byte by byte. -/
instance (t : Text) : Decidable (Blank t) := inferInstanceAs (Decidable (∀ _ ∈ t, _))

/-- The empty text is blank. -/
theorem blank_nil : Blank [] := List.forall_mem_nil _

/-- A blank text has no other byte. -/
theorem Blank.notMem {t : Text} (ht : Blank t) {b : UInt8} (hb : isSpace b = false) : b ∉ t := by
  intro hmem
  rw [ht b hmem] at hb
  cases hb

/-- Two blank texts together are blank. -/
theorem Blank.append {t u : Text} (ht : Blank t) (hu : Blank u) : Blank (t ++ u) :=
  List.forall_mem_append.2 ⟨ht, hu⟩

/-! ## Separators and trimming -/

/-- A text up to its first separator, and the separator with what follows it. -/
theorem exists_eq_before_append (c : UInt8) (t : Text) :
    ∃ rest, t = before c t ++ rest ∧ ∀ b, rest.head? = some b → b = c := by
  refine ⟨t.dropWhile (· ≠ c), List.takeWhile_append_dropWhile.symm, fun b hb => ?_⟩
  simpa using (isSpan_takeWhile (fun b => decide (b ≠ c)) t).ends b hb

/-- A text without the separator is in front of it. -/
theorem before_append_of_notMem {c : UInt8} {t : Text} (h : c ∉ t) (u : Text) :
    before c (t ++ u) = t ++ before c u :=
  List.takeWhile_append_of_pos fun _ hb => decide_eq_true fun hbc => h (hbc ▸ hb)

/-- A text with a separator is what comes before and after it. -/
theorem before_append_cons_after {c : UInt8} {t : Text} (h : c ∈ t) :
    before c t ++ c :: after c t = t := by
  obtain ⟨rest, ht, hrest⟩ := exists_eq_before_append c t
  cases rest with
  | nil =>
    rw [List.append_nil] at ht
    exact absurd (ht ▸ h) (notMem_before c t)
  | cons b rest =>
    obtain rfl := hrest b rfl
    have hafter : after b t = rest := by
      conv_lhs => rw [ht]
      exact after_append_cons (notMem_before b t) rest
    rw [hafter, ← ht]

/-- White space around a trimmed text is trimmed away. -/
theorem trim_append {u t v : Text} (hu : Blank u) (ht : Trimmed t) (hne : t ≠ []) (hv : Blank v) :
    trim (u ++ (t ++ v)) = t := by
  have hfirst : (u ++ (t ++ v)).dropWhile isSpace = t ++ v := by
    refine (IsSpan.mk hu fun b hb => ?_).dropWhile
    rw [List.head?_append_of_ne_nil _ hne] at hb
    exact ht.1 b hb
  have hlast : (v.reverse ++ t.reverse).dropWhile isSpace = t.reverse := by
    refine (IsSpan.mk (fun b hb => hv b (List.mem_reverse.1 hb)) fun b hb => ?_).dropWhile
    rw [List.head?_reverse] at hb
    exact ht.2 b hb
  rw [trim, hfirst, List.rdropWhile, List.reverse_append, hlast, List.reverse_reverse]

/-! ## Words -/

/-- A word in front of a text, as a `%Ns` conversion stores it: it ends at white space, at the end
of the text, or where it is as long as the conversion allows. -/
structure IsWord (width : ℕ) (word rest : Text) : Prop where
  ne_nil : word ≠ []
  length_le : word.length ≤ width
  noSpace : ∀ b ∈ word, isSpace b = false
  ends : word.length < width → ∀ b, rest.head? = some b → isSpace b = true

/-- A word is cut off the run of bytes that are no white space. -/
theorem IsWord.take_takeWhile {width : ℕ} {word rest : Text} (h : IsWord width word rest) :
    ((word ++ rest).takeWhile fun b => !isSpace b).take width = word := by
  rw [List.takeWhile_append_of_pos fun b hb => by simp [h.noSpace b hb]]
  rcases h.length_le.lt_or_eq with hlt | heq
  · -- A shorter word ends where the run ends.
    have hstop : rest.takeWhile (fun b => !isSpace b) = [] := by
      cases rest with
      | nil => rfl
      | cons b rest => rw [List.takeWhile_cons_of_neg (by simp [h.ends hlt b rfl])]
    rw [hstop, List.append_nil, List.take_of_length_le h.length_le]
  · rw [← heq, List.take_left]

/-- A text has one word of a width in front. -/
theorem IsWord.unique {width : ℕ} {word rest word' rest' : Text} (h : IsWord width word rest)
    (h' : IsWord width word' rest') (heq : word ++ rest = word' ++ rest') :
    word = word' ∧ rest = rest' := by
  have hword : word = word' := by rw [← h.take_takeWhile, heq, h'.take_takeWhile]
  subst hword
  exact ⟨rfl, List.append_cancel_left heq⟩

/-- The white space in front of a word ends where the word starts. -/
theorem IsWord.isSpan {width : ℕ} {word rest spaces : Text} (h : IsWord width word rest)
    (hspaces : Blank spaces) : IsSpan isSpace spaces (word ++ rest) where
  all := hspaces
  ends b hb := by
    rw [List.head?_append_of_ne_nil _ h.ne_nil] at hb
    exact h.noSpace b (List.mem_of_mem_head? hb)

/-- Where a text starts with white space, a word stands behind this white space. -/
theorem IsWord.spaces_ne_nil {width : ℕ} {word rest spaces : Text} (h : IsWord width word rest)
    (hfirst : ∀ b, (spaces ++ (word ++ rest)).head? = some b → isSpace b = true) :
    spaces ≠ [] := by
  rintro rfl
  obtain ⟨b, word', rfl⟩ := List.exists_cons_of_ne_nil h.ne_nil
  have hb := h.noSpace b List.mem_cons_self
  rw [hfirst b rfl] at hb
  cases hb

/-- A conversion stores the word that a text has behind its white space. -/
theorem scanWord_eq_some_iff {width : ℕ} {t word rest : Text} :
    scanWord width t = some (word, rest) ↔
      ∃ spaces, Blank spaces ∧ IsWord width word rest ∧ t = spaces ++ (word ++ rest) := by
  constructor
  · intro h
    obtain ⟨hne, hlength, hnoSpace, -⟩ := scanWord_eq_some h
    unfold scanWord at h
    dsimp only at h
    split_ifs at h with hnil
    obtain ⟨hword, hrest⟩ := Prod.mk.inj (Option.some.inj h)
    rw [hword] at hrest
    set run := (t.dropWhile isSpace).takeWhile fun b => !isSpace b with hrun
    -- The word is the start of what is behind the white space.
    have hbody : word ++ rest = t.dropWhile isSpace := by
      have hpre : word <+: t.dropWhile isSpace := by
        rw [← hword]
        exact (List.take_prefix _ _).trans (List.takeWhile_prefix _)
      rw [← hrest]
      exact List.prefix_iff_eq_append.1 hpre
    refine ⟨t.takeWhile isSpace, fun b hb => List.mem_takeWhile_imp hb,
      ⟨hne, hlength, hnoSpace, fun hlt b hb => ?_⟩, ?_⟩
    · -- A word that is shorter than the width is the whole run.
      have hwhole : run = word := by
        rw [← hword, List.length_take] at hlt
        rw [← hword, List.take_of_length_le (by omega)]
      have hafter : rest = (t.dropWhile isSpace).dropWhile fun b => !isSpace b := by
        rw [← hwhole, hrun] at hbody
        exact List.append_cancel_left (hbody.trans List.takeWhile_append_dropWhile.symm)
      rw [hafter] at hb
      simpa using (isSpan_takeWhile _ _).ends b hb
    · rw [hbody, List.takeWhile_append_dropWhile]
  · rintro ⟨spaces, hspaces, hword, rfl⟩
    unfold scanWord
    dsimp only
    rw [(hword.isSpan hspaces).dropWhile, hword.take_takeWhile, if_neg hword.ne_nil,
      List.drop_left]

/-- A conversion finds no word in white space only. -/
theorem scanWord_eq_none_iff {width : ℕ} (hwidth : 0 < width) {t : Text} :
    scanWord width t = none ↔ Blank t := by
  have hspan := isSpan_takeWhile isSpace t
  have hblank : Blank t ↔ t.dropWhile isSpace = [] := List.dropWhile_eq_nil_iff.symm
  rw [hblank]
  unfold scanWord
  dsimp only
  cases hbody : t.dropWhile isSpace with
  | nil => simp
  | cons b body =>
    rw [hbody] at hspan
    have hb : isSpace b = false := hspan.ends b rfl
    obtain ⟨n, rfl⟩ := Nat.exists_eq_succ_of_ne_zero hwidth.ne'
    simp [hb]

/-! ## Fields -/

/-- The fields of a text: its longest pieces without white space. -/
def fields (t : Text) : List Text := (t.splitOnP isSpace).filter (· ≠ [])

/-- White space in front does not matter for the fields. -/
theorem fields_cons_of_isSpace {b : UInt8} (hb : isSpace b = true) (t : Text) :
    fields (b :: t) = fields t := by
  rw [fields, List.splitOnP_cons_eq_if_modifyHead, if_pos hb, List.filter_cons_of_neg (by simp)]
  rfl

/-- White space in front of a text adds no field. -/
theorem fields_append_of_blank {spaces : Text} (hspaces : Blank spaces) (t : Text) :
    fields (spaces ++ t) = fields t := by
  induction spaces with
  | nil => rfl
  | cons b spaces ih =>
    obtain ⟨hb, hspaces⟩ := List.forall_mem_cons.1 hspaces
    rw [List.cons_append, fields_cons_of_isSpace hb, ih hspaces]

/-- White space has no fields. -/
theorem fields_eq_nil_of_blank {spaces : Text} (hspaces : Blank spaces) : fields spaces = [] := by
  have h := fields_append_of_blank hspaces []
  rw [List.append_nil] at h
  exact h

/-- A field in front of a text: bytes that are no white space, up to white space or the end. -/
structure IsField (word rest : Text) : Prop where
  ne_nil : word ≠ []
  noSpace : ∀ b ∈ word, isSpace b = false
  ends : ∀ b, rest.head? = some b → isSpace b = true

/-- The first field of a text. -/
theorem IsField.fields_append {word rest : Text} (h : IsField word rest) :
    fields (word ++ rest) = word :: fields rest := by
  cases rest with
  | nil =>
    rw [List.append_nil, fields, List.splitOnP_eq_singleton h.noSpace,
      List.filter_cons_of_pos (by simpa using h.ne_nil)]
    rfl
  | cons b rest =>
    have hb := h.ends b rfl
    rw [fields_cons_of_isSpace hb, fields,
      List.splitOnP_append_cons_of_forall_mem h.noSpace b hb,
      List.filter_cons_of_pos (by simpa using h.ne_nil)]
    rfl

/-- A word that no more of the text could go on with is a field. -/
theorem IsWord.isField {width : ℕ} {word rest : Text} (h : IsWord width word rest)
    (hends : ∀ b, rest.head? = some b → isSpace b = true) : IsField word rest :=
  ⟨h.ne_nil, h.noSpace, hends⟩

/-- A text is white space, or it has a first field. -/
theorem blank_or_exists_field (t : Text) :
    Blank t ∨ ∃ spaces word rest, Blank spaces ∧ IsField word rest ∧
      t = spaces ++ (word ++ rest) := by
  have hspan := isSpan_takeWhile isSpace t
  have hrun := isSpan_takeWhile (fun b => !isSpace b) (t.dropWhile isSpace)
  by_cases hblank : Blank t
  · exact .inl hblank
  · right
    refine ⟨t.takeWhile isSpace, (t.dropWhile isSpace).takeWhile fun b => !isSpace b,
      (t.dropWhile isSpace).dropWhile fun b => !isSpace b, hspan.all,
      ⟨fun hnil => hblank ?_, fun b hb => by simpa using hrun.all b hb,
        fun b hb => by simpa using hrun.ends b hb⟩, ?_⟩
    · -- Nothing is left behind the white space.
      cases hbody : t.dropWhile isSpace with
      | nil => exact List.dropWhile_eq_nil_iff.1 hbody
      | cons b body =>
        have hb : isSpace b = false := hspan.ends b (by rw [hbody]; rfl)
        rw [hbody, List.takeWhile_cons_of_pos (by simp [hb])] at hnil
        cases hnil
    · rw [List.takeWhile_append_dropWhile, List.takeWhile_append_dropWhile]

/-- A text with one field is the field with white space around it. -/
theorem exists_of_fields_eq_singleton {t word : Text} (h : fields t = [word]) :
    ∃ spaces rest, Blank spaces ∧ Blank rest ∧ IsField word rest ∧
      t = spaces ++ (word ++ rest) := by
  rcases blank_or_exists_field t with hblank | ⟨spaces, first, rest, hspaces, hfield, rfl⟩
  · rw [fields_eq_nil_of_blank hblank] at h
    cases h
  · rw [fields_append_of_blank hspaces, hfield.fields_append] at h
    obtain ⟨rfl, hnone⟩ := List.cons.inj h
    refine ⟨spaces, rest, hspaces, ?_, hfield, rfl⟩
    rcases blank_or_exists_field rest with hblank | ⟨spaces', next, rest', hspaces', hnext, rfl⟩
    · exact hblank
    · rw [fields_append_of_blank hspaces', hnext.fields_append] at hnone
      cases hnone

/-! ## Numbers -/

/-- The sign of a number. -/
inductive Sign where
  | none
  | plus
  | minus
deriving DecidableEq, Repr

/-- How a sign is written. -/
def Sign.text : Sign → Text
  | none => []
  | plus => [43]
  | minus => [45]

/-- A number as the scanning functions take it. -/
@[ext]
structure Numeral where
  sign : Sign
  digits : Text
  ne_nil : digits ≠ []
  isDigit : ∀ b ∈ digits, Scan.isDigit b = true

namespace Numeral

/-- How the number is written. -/
def text (n : Numeral) : Text := n.sign.text ++ n.digits

/-- The number without its sign. -/
def magnitude (n : Numeral) : ℕ := digitsValue n.digits

/-- The number as an `unsigned long` of 64 bits. -/
def value (n : Numeral) : ℕ :=
  if 2 ^ 64 ≤ n.magnitude then 2 ^ 64 - 1
  else if n.sign = .minus then (2 ^ 64 - n.magnitude) % 2 ^ 64
  else n.magnitude

/-- The first byte of a number shows its sign. -/
theorem exists_head (n : Numeral) (rest : Text) : ∃ b, (n.text ++ rest).head? = some b ∧
    (n.sign = .none ∧ Scan.isDigit b = true ∨ n.sign = .plus ∧ b = 43 ∨
      n.sign = .minus ∧ b = 45) := by
  obtain ⟨b, digits, hdigits⟩ := List.exists_cons_of_ne_nil n.ne_nil
  unfold text
  cases n.sign with
  | none =>
    refine ⟨b, ?_, .inl ⟨rfl, n.isDigit b (hdigits ▸ List.mem_cons_self)⟩⟩
    rw [hdigits]
    rfl
  | plus => exact ⟨43, rfl, .inr (.inl ⟨rfl, rfl⟩)⟩
  | minus => exact ⟨45, rfl, .inr (.inr ⟨rfl, rfl⟩)⟩

/-- A number has a minus sign exactly when it starts with its byte. -/
theorem head?_eq_minus_iff (n : Numeral) (rest : Text) :
    (n.text ++ rest).head? = some 45 ↔ n.sign = .minus := by
  obtain ⟨b, hb, hcases⟩ := n.exists_head rest
  rw [hb, Option.some_inj]
  rcases hcases with ⟨hs, hd⟩ | ⟨hs, rfl⟩ | ⟨hs, rfl⟩
  · refine iff_of_false ?_ (by simp [hs])
    rintro rfl
    exact absurd hd (by decide)
  · exact iff_of_false (by decide) (by simp [hs])
  · exact iff_of_true rfl hs

/-- A number of 64 bits without a minus sign is taken as it is. -/
theorem value_eq_magnitude {n : Numeral} (hsign : n.sign ≠ .minus) (hlt : n.magnitude < 2 ^ 64) :
    n.value = n.magnitude := by
  rw [value, if_neg (Nat.not_le.2 hlt), if_neg hsign]

/-- A numeral has a byte. -/
theorem text_ne_nil (n : Numeral) : n.text ≠ [] := by
  intro h
  obtain ⟨b, hb, -⟩ := n.exists_head []
  rw [h] at hb
  cases hb

/-- A number has digits, and a sign. -/
theorem mem_text {n : Numeral} {b : UInt8} (h : b ∈ n.text) :
    Scan.isDigit b = true ∨ b = 43 ∨ b = 45 := by
  rcases List.mem_append.1 h with hsign | hdigit
  · cases hn : n.sign with
    | none =>
      rw [hn] at hsign
      cases hsign
    | plus =>
      rw [hn] at hsign
      exact .inr (.inl (List.mem_singleton.1 hsign))
    | minus =>
      rw [hn] at hsign
      exact .inr (.inr (List.mem_singleton.1 hsign))
  · exact .inl (n.isDigit b hdigit)

/-- There is no white space in a number. -/
theorem isSpace_of_mem_text {n : Numeral} {b : UInt8} (h : b ∈ n.text) : isSpace b = false := by
  rcases mem_text h with hdigit | rfl | rfl
  · exact isSpace_of_isDigit hdigit
  · decide
  · decide

/-- The white space in front of a numeral ends where the numeral starts. -/
theorem isSpan {n : Numeral} {rest spaces : Text} (hspaces : Blank spaces) :
    IsSpan isSpace spaces (n.text ++ rest) where
  all := hspaces
  ends b hb := by
    rw [List.head?_append_of_ne_nil _ n.text_ne_nil] at hb
    exact isSpace_of_mem_text (List.mem_of_mem_head? hb)

/-- A text has one number in front. -/
theorem unique {n n' : Numeral} {rest rest' : Text}
    (hrest : ∀ b, rest.head? = some b → Scan.isDigit b = false)
    (hrest' : ∀ b, rest'.head? = some b → Scan.isDigit b = false)
    (heq : n.text ++ rest = n'.text ++ rest') : n = n' ∧ rest = rest' := by
  have hsign : n.sign = n'.sign := by
    obtain ⟨b, hb, hcases⟩ := n.exists_head rest
    obtain ⟨b', hb', hcases'⟩ := n'.exists_head rest'
    rw [heq, hb', Option.some_inj] at hb
    subst hb
    have h43 : Scan.isDigit 43 = false := by decide
    have h45 : Scan.isDigit 45 = false := by decide
    -- A digit, a plus sign and a minus sign are three different bytes.
    rcases hcases with ⟨hs, hd⟩ | ⟨hs, rfl⟩ | ⟨hs, rfl⟩
    · rcases hcases' with ⟨hs', -⟩ | ⟨-, rfl⟩ | ⟨-, rfl⟩
      · rw [hs, hs']
      · rw [h43] at hd
        cases hd
      · rw [h45] at hd
        cases hd
    · rcases hcases' with ⟨-, hd'⟩ | ⟨hs', -⟩ | ⟨-, h⟩
      · rw [h43] at hd'
        cases hd'
      · rw [hs, hs']
      · exact absurd h (by decide)
    · rcases hcases' with ⟨-, hd'⟩ | ⟨-, h⟩ | ⟨hs', -⟩
      · rw [h45] at hd'
        cases hd'
      · exact absurd h (by decide)
      · rw [hs, hs']
  rw [text, text, hsign, List.append_assoc, List.append_assoc] at heq
  obtain ⟨hdigits, hrests⟩ := IsSpan.unique ⟨n.isDigit, hrest⟩ ⟨n'.isDigit, hrest'⟩
    (List.append_cancel_left heq)
  exact ⟨Numeral.ext hsign hdigits, hrests⟩

end Numeral

/-- What follows a number behind a word does not matter for the word. -/
theorem IsWord.numeral {width : ℕ} {word spaces rest : Text} {n : Numeral}
    (h : IsWord width word (spaces ++ (n.text ++ rest))) (rest' : Text) :
    IsWord width word (spaces ++ (n.text ++ rest')) where
  ne_nil := h.ne_nil
  length_le := h.length_le
  noSpace := h.noSpace
  ends hlt b hb := by
    have hne : spaces ++ n.text ≠ [] := by simp [n.text_ne_nil]
    refine h.ends hlt b ?_
    rw [← List.append_assoc, List.head?_append_of_ne_nil _ hne] at hb ⊢
    exact hb

/-- A number behind white space is read up to its last digit. -/
theorem strtoul_append {spaces rest : Text} (hspaces : Blank spaces) (n : Numeral)
    (hrest : ∀ b, rest.head? = some b → isDigit b = false) :
    strtoul (spaces ++ (n.text ++ rest)) = ⟨n.value, decide (2 ^ 64 ≤ n.magnitude), rest⟩ := by
  have hspan : IsSpan isDigit n.digits rest := ⟨n.isDigit, hrest⟩
  obtain ⟨b, hb, hcases⟩ := n.exists_head rest
  -- The sign is skipped, if there is one.
  have hunsigned : (if (n.text ++ rest).head? = some 45 ∨ (n.text ++ rest).head? = some 43
      then (n.text ++ rest).drop 1 else n.text ++ rest) = n.digits ++ rest := by
    rcases hcases with ⟨hs, hd⟩ | ⟨hs, rfl⟩ | ⟨hs, rfl⟩
    · have hne : ¬((n.text ++ rest).head? = some 45 ∨ (n.text ++ rest).head? = some 43) := by
        rw [hb, Option.some_inj, Option.some_inj]
        rintro (rfl | rfl)
        · exact absurd hd (by decide)
        · exact absurd hd (by decide)
      rw [if_neg hne, Numeral.text, hs]
      rfl
    · rw [if_pos (.inr hb), Numeral.text, hs]
      rfl
    · rw [if_pos (.inl hb), Numeral.text, hs]
      rfl
  unfold strtoul
  dsimp only
  rw [(Numeral.isSpan hspaces).dropWhile, hunsigned, hspan.takeWhile, hspan.dropWhile,
    if_neg n.ne_nil]
  simp only [n.head?_eq_minus_iff]
  unfold Numeral.value
  change (if 2 ^ 64 ≤ n.magnitude then _ else if n.sign = .minus then _ else _) = _
  by_cases hbig : 2 ^ 64 ≤ n.magnitude
  · rw [if_pos hbig, if_pos hbig, decide_eq_true hbig]
  · rw [if_neg hbig, if_neg hbig, decide_eq_false hbig]
    split_ifs <;> rfl

/-- A text has a number behind its white space, or `strtoul` converts nothing. -/
theorem exists_numeral (t : Text) :
    (∃ spaces rest, ∃ n : Numeral, Blank spaces ∧
        (∀ b, rest.head? = some b → isDigit b = false) ∧ t = spaces ++ (n.text ++ rest)) ∨
      strtoul t = ⟨0, false, t⟩ := by
  have hblank : Blank (t.takeWhile isSpace) := fun b hb => List.mem_takeWhile_imp hb
  have hwhole : t.takeWhile isSpace ++ t.dropWhile isSpace = t := List.takeWhile_append_dropWhile
  -- A sign in front, if there is one.
  obtain ⟨sign, unsigned, hbody, hunsigned⟩ : ∃ (sign : Sign) (unsigned : Text),
      t.dropWhile isSpace = sign.text ++ unsigned ∧
      (if (t.dropWhile isSpace).head? = some 45 ∨ (t.dropWhile isSpace).head? = some 43
        then (t.dropWhile isSpace).drop 1 else t.dropWhile isSpace) = unsigned := by
    by_cases hsign : (t.dropWhile isSpace).head? = some 45 ∨ (t.dropWhile isSpace).head? = some 43
    · rw [if_pos hsign]
      rcases hsign with h | h
      · exact ⟨.minus, _, List.eq_cons_of_mem_head? h ▸ rfl, rfl⟩
      · exact ⟨.plus, _, List.eq_cons_of_mem_head? h ▸ rfl, rfl⟩
    · rw [if_neg hsign]
      exact ⟨.none, _, rfl, rfl⟩
  have hspan := isSpan_takeWhile isDigit unsigned
  by_cases hdigits : unsigned.takeWhile isDigit = []
  · right
    unfold strtoul
    dsimp only
    rw [hunsigned, if_pos hdigits]
  · left
    refine ⟨_, unsigned.dropWhile isDigit, ⟨sign, _, hdigits, hspan.all⟩, hblank, hspan.ends, ?_⟩
    rw [Numeral.text, List.append_assoc, List.takeWhile_append_dropWhile, ← hbody, hwhole]

/-- A `%hu` conversion stores the number that a text has behind its white space, modulo `2^16`. -/
theorem scanShort_eq_some_iff {t rest : Text} {k : UInt16} :
    scanShort t = some (k, rest) ↔
      ∃ spaces, ∃ n : Numeral, Blank spaces ∧
        (∀ b, rest.head? = some b → isDigit b = false) ∧ t = spaces ++ (n.text ++ rest) ∧
        k = UInt16.ofNat n.value := by
  unfold scanShort
  dsimp only
  constructor
  · intro h
    rcases exists_numeral t with ⟨spaces, rest', n, hspaces, hrest, ht⟩ | hnone
    · rw [ht, strtoul_append hspaces n hrest] at h
      split_ifs at h
      obtain ⟨rfl, rfl⟩ := Prod.mk.inj (Option.some.inj h)
      exact ⟨spaces, n, hspaces, hrest, ht, rfl⟩
    · rw [hnone, if_neg (Nat.lt_irrefl _)] at h
      cases h
  · rintro ⟨spaces, n, hspaces, hrest, rfl, rfl⟩
    rw [strtoul_append hspaces n hrest]
    have hpos : 0 < n.text.length := List.length_pos_iff.2 n.text_ne_nil
    have hlt : rest.length < (spaces ++ (n.text ++ rest)).length := by
      rw [List.length_append, List.length_append]
      omega
    rw [if_pos hlt]

end Scan
