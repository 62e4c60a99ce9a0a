import Mathlib.Tactic.Common

/-!
# Cutting a text into lexemes

A lexer skips some symbols, and asks elsewhere which item the text starts with and how long its
lexeme is. It keeps a place, which skipped symbols and lexemes move on. `Scans` relates a text to
its lexemes and to the rest at which nothing is recognised: the rest is empty when the lexemes and
the skipped symbols are the whole text. A text has one scan at most (`Scans.unique`), and one when
no lexeme is empty (`exists_scans`).
-/

namespace Lexing

/-- What a scanner does at the symbols of a text. -/
structure Lexer (α ι σ : Type*) where
  /-- The symbols that are skipped between lexemes. -/
  skip : α → Bool
  /-- The item that a text starts with, and the length of its lexeme. -/
  pick : List α → Option (ι × ℕ)
  /-- The place behind a skipped symbol. -/
  skipped : σ → α → σ
  /-- The place behind a lexeme of a length. -/
  taken : σ → ℕ → σ

/-- A lexeme: where it stands, what it is, the text that starts with it, and its length. -/
structure Lexeme (α ι σ : Type*) where
  place : σ
  item : ι
  text : List α
  length : ℕ

variable {α ι σ : Type*}

/-- From the place `p`, the text is cut into the lexemes `ls` up to the rest `r`, at the place `q`,
where it ends or nothing is recognised. -/
inductive Lexer.Scans (l : Lexer α ι σ) :
    σ → List α → List (Lexeme α ι σ) → List α → σ → Prop
  | done (p : σ) : Scans l p [] [] [] p
  | stuck (p : σ) {a : α} {u : List α} (hskip : l.skip a = false)
      (hpick : l.pick (a :: u) = none) : Scans l p (a :: u) [] (a :: u) p
  | skip {p q : σ} {a : α} {u r : List α} {ls : List (Lexeme α ι σ)} (hskip : l.skip a = true)
      (h : Scans l (l.skipped p a) u ls r q) : Scans l p (a :: u) ls r q
  | take {p q : σ} {a : α} {u r : List α} {ls : List (Lexeme α ι σ)} {i : ι} {n : ℕ}
      (hskip : l.skip a = false) (hpick : l.pick (a :: u) = some (i, n))
      (h : Scans l (l.taken p n) ((a :: u).drop n) ls r q) :
      Scans l p (a :: u) (⟨p, i, a :: u, n⟩ :: ls) r q

namespace Lexer.Scans

variable {l : Lexer α ι σ}

/-- A text is cut in one way. -/
theorem unique {p q q' : σ} {u r r' : List α} {ls ls' : List (Lexeme α ι σ)}
    (h : l.Scans p u ls r q) (h' : l.Scans p u ls' r' q') : ls = ls' ∧ r = r' ∧ q = q' := by
  induction h generalizing ls' with
  | done p =>
    cases h'
    exact ⟨rfl, rfl, rfl⟩
  | stuck p hskip hpick =>
    cases h' with
    | stuck => exact ⟨rfl, rfl, rfl⟩
    | skip hskip' => rw [hskip] at hskip'; cases hskip'
    | take _ hpick' => rw [hpick] at hpick'; cases hpick'
  | skip hskip _ ih =>
    cases h' with
    | stuck _ hskip' => rw [hskip] at hskip'; cases hskip'
    | skip _ h' => exact ih h'
    | take hskip' => rw [hskip] at hskip'; cases hskip'
  | take hskip hpick _ ih =>
    cases h' with
    | stuck _ _ hpick' => rw [hpick] at hpick'; cases hpick'
    | skip hskip' => rw [hskip] at hskip'; cases hskip'
    | take _ hpick' h' =>
      rw [hpick, Option.some_inj, Prod.mk.injEq] at hpick'
      obtain ⟨rfl, rfl⟩ := hpick'
      obtain ⟨rfl, rfl, rfl⟩ := ih h'
      exact ⟨rfl, rfl, rfl⟩

/-- What is recognised is recognised where it stands. -/
theorem pick_of_mem {p q : σ} {u r : List α} {ls : List (Lexeme α ι σ)}
    (h : l.Scans p u ls r q) : ∀ x ∈ ls, l.pick x.text = some (x.item, x.length) := by
  induction h with
  | done => simp
  | stuck => simp
  | skip _ _ ih => exact ih
  | take _ hpick _ ih => exact List.forall_mem_cons.2 ⟨hpick, ih⟩

end Lexer.Scans

/-- Where no lexeme is empty, every text has a scan. -/
theorem Lexer.exists_scans {l : Lexer α ι σ} (hpick : ∀ u i n, l.pick u = some (i, n) → 0 < n)
    (p : σ) (u : List α) : ∃ ls r q, l.Scans p u ls r q := by
  -- Each lexeme and each skipped symbol makes the text shorter.
  induction hlen : u.length using Nat.strongRecOn generalizing u p with
  | ind n ih =>
    cases u with
    | nil => exact ⟨[], [], p, .done p⟩
    | cons a u =>
      rw [List.length_cons] at hlen
      cases hskip : l.skip a with
      | true =>
        obtain ⟨ls, r, q, h⟩ := ih u.length (by omega) (l.skipped p a) u rfl
        exact ⟨ls, r, q, .skip hskip h⟩
      | false =>
        cases hhead : l.pick (a :: u) with
        | none => exact ⟨[], a :: u, p, .stuck p hskip hhead⟩
        | some found =>
          obtain ⟨i, m⟩ := found
          have hm : 0 < m := hpick _ i m hhead
          have hshort : ((a :: u).drop m).length < n := by
            rw [List.length_drop, List.length_cons]
            omega
          obtain ⟨ls, r, q, h⟩ := ih _ hshort (l.taken p m) _ rfl
          exact ⟨_ :: ls, r, q, .take hskip hhead h⟩

end Lexing
