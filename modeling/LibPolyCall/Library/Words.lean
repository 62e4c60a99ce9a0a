import LibPolyCall.Library.Spans
import Mathlib.Data.List.GetD

/-!
# Cutting a text into words in place

`strtok` with one separator, on the bytes of a buffer: it skips the separators at a position, and
overwrites the one behind the word by a terminator, so that the buffer no longer holds the text that
it held. `strtok_word` and `strtok_none` say what it finds, and `strtok_append` that it leaves alone
what is in front of the position.
-/

namespace Words

open Scan

/-- The text at a position of a buffer. -/
def textAt (buffer : Text) (pos : ℕ) : Text := before nul (buffer.drop pos)

/-- `strtok`, from the position at which the last call ended: where the word starts that is found,
the buffer behind the call, and the position at which the next call goes on. -/
def strtok (sep : UInt8) (buffer : Text) (pos : ℕ) : Option ℕ × Text × ℕ :=
  let start := pos + ((buffer.drop pos).takeWhile (· = sep)).length
  if byteAt buffer start = nul then (none, buffer, start)
  else
    let stop := start + ((buffer.drop start).takeWhile fun b => b ≠ nul && b ≠ sep).length
    if byteAt buffer stop = nul then (some start, buffer, stop)
    else (some start, buffer.set stop nul, stop + 1)

/-- The separators in front of the first word. -/
def margin (sep : UInt8) (t : Text) : Text := t.takeWhile (· = sep)

/-- The first word, or nothing where there is none. -/
def firstWord (sep : UInt8) (t : Text) : Text := before sep (t.dropWhile (· = sep))

section Strtok

variable {sep : UInt8} {buffer front rest word t : Text} {k : ℕ}

/-- The text up to the first terminator. -/
theorem textAt_append (hfront : nul ∉ front) (rest : Text) :
    textAt (front ++ nul :: rest) 0 = front :=
  before_append_cons hfront rest

/-- The text that starts behind another one. -/
theorem textAt_length (front : Text) (hword : nul ∉ word) (rest : Text) :
    textAt (front ++ (word ++ nul :: rest)) front.length = word := by
  rw [textAt, List.drop_left]
  exact before_append_cons hword rest

/-- What is in front of the position is left alone. -/
theorem strtok_append (front rest : Text) :
    strtok sep (front ++ rest) front.length =
      ((strtok sep rest 0).1.map (front.length + ·), front ++ (strtok sep rest 0).2.1,
        front.length + (strtok sep rest 0).2.2) := by
  unfold strtok
  dsimp only
  rw [List.drop_left, List.drop_zero, Nat.zero_add, byteAt_append_length]
  generalize (rest.takeWhile (· = sep)).length = start
  have hdrop : (front ++ rest).drop (front.length + start) = rest.drop start := by
    rw [← List.drop_drop, List.drop_left]
  rw [hdrop, Nat.add_assoc, byteAt_append_length]
  split_ifs
  · rfl
  · rfl
  · rw [List.set_append_right _ _ (Nat.le_add_right _ _), Nat.add_sub_cancel_left]
    rfl

/-- At the end of the text there is no word. -/
theorem strtok_none (hsep : sep ≠ nul) (hblank : ∀ b ∈ front, b = sep) (rest : Text) :
    strtok sep (front ++ nul :: rest) 0 = (none, front ++ nul :: rest, front.length) := by
  have hspan : IsSpan (fun b => decide (b = sep)) front (nul :: rest) := by
    refine ⟨fun b hb => decide_eq_true (hblank b hb), fun b hb => ?_⟩
    rw [← Option.some.inj hb]
    exact decide_eq_false hsep.symm
  have hbyte : byteAt (front ++ nul :: rest) front.length = nul := byteAt_append_length front _ 0
  unfold strtok
  dsimp only
  rw [List.drop_zero, hspan.takeWhile, Nat.zero_add, if_pos hbyte]

/-- A word ends at a separator, which is overwritten, or at the end of the text. -/
theorem strtok_word (hblank : ∀ b ∈ front, b = sep) (hne : word ≠ [])
    (hword : ∀ b ∈ word, b ≠ nul ∧ b ≠ sep) {b : UInt8} (hb : b = nul ∨ b = sep) (rest : Text) :
    strtok sep (front ++ (word ++ b :: rest)) 0 =
      (some front.length, front ++ (word ++ nul :: rest),
        front.length + word.length + if b = nul then 0 else 1) := by
  obtain ⟨c, more, rfl⟩ := List.exists_cons_of_ne_nil hne
  have hc := hword c List.mem_cons_self
  have hspan : IsSpan (fun b => decide (b = sep)) front (c :: more ++ b :: rest) := by
    refine ⟨fun b hb => decide_eq_true (hblank b hb), fun b hb => ?_⟩
    rw [← Option.some.inj hb]
    exact decide_eq_false hc.2
  have hstart : byteAt (front ++ (c :: more ++ b :: rest)) front.length = c :=
    byteAt_append_length front _ 0
  have hrun : IsSpan (fun b => decide (b ≠ nul) && decide (b ≠ sep)) (c :: more) (b :: rest) := by
    refine ⟨fun b hb => ?_, fun d hd => ?_⟩
    · rw [Bool.and_eq_true, decide_eq_true_eq, decide_eq_true_eq]
      exact hword b hb
    · rw [← Option.some.inj hd, Bool.and_eq_false_iff, decide_eq_false_iff_not,
        decide_eq_false_iff_not, not_not, not_not]
      exact hb
  have hstop : byteAt (front ++ (c :: more ++ b :: rest)) (front.length + (c :: more).length) =
      b := by
    rw [byteAt_append_length]
    exact byteAt_append_length (c :: more) _ 0
  unfold strtok
  dsimp only
  rw [List.drop_zero, hspan.takeWhile, Nat.zero_add, hstart, if_neg hc.1, List.drop_left,
    hrun.takeWhile, hstop]
  split_ifs with hnul
  · rw [hnul, Nat.add_zero]
  · rw [List.set_append_right _ _ (Nat.le_add_right _ _), Nat.add_sub_cancel_left,
      List.set_append_right _ _ (Nat.le_refl _), Nat.sub_self, List.set_cons_zero]

/-- A text is its margin, its first word, and what is behind it. -/
theorem exists_eq_append (sep : UInt8) (t : Text) : ∃ rest,
    t = margin sep t ++ (firstWord sep t ++ rest) ∧ (rest = [] ∨ ∃ more, rest = sep :: more) := by
  obtain ⟨rest, heq, hrest⟩ := exists_eq_before_append sep (t.dropWhile (· = sep))
  refine ⟨rest, ?_, ?_⟩
  · rw [firstWord, ← heq, margin, List.takeWhile_append_dropWhile]
  · cases rest with
    | nil => exact .inl rfl
    | cons b more => exact .inr ⟨more, by rw [hrest b rfl]⟩

/-- A margin is made of separators only. -/
theorem eq_of_mem_margin {b : UInt8} (hb : b ∈ margin sep t) : b = sep :=
  of_decide_eq_true (List.mem_takeWhile_imp (p := fun b => decide (b = sep)) hb)

/-- Without a first word, a text is all separators. -/
theorem eq_margin_of_firstWord_eq_nil (h : firstWord sep t = []) : t = margin sep t := by
  have hspan := isSpan_takeWhile (fun b => decide (b = sep)) t
  have hrest : t.dropWhile (· = sep) = [] := by
    cases hcons : t.dropWhile (· = sep) with
    | nil => rfl
    | cons b rest =>
      have hb : decide (b ≠ sep) = true := by
        rw [decide_not, hspan.ends b (by rw [hcons]; rfl)]
        rfl
      rw [firstWord, hcons, before, List.takeWhile_cons, if_pos hb] at h
      cases h
  have happend := List.takeWhile_append_dropWhile (p := fun b => decide (b = sep)) (l := t)
  rw [hrest, List.append_nil] at happend
  exact happend.symm

end Strtok

end Words
