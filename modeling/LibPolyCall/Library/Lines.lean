import LibPolyCall.Library.Scan

/-!
# Reading a file line by line

`fgets` in a loop: it returns the next line with its newline, or the next `limit` bytes of a line
that is longer, and at the end of the file what is left. `chunks` lists what it returns, together
with what `feof` says after each call. Where no line was too long, the chunks are the lines of the
file (`filterMap_chunks`), and a file written line by line is read line by line (`chunks_flatMap`).
-/

namespace Lines

open Scan

/-- What a call of `fgets` stores, and what `feof` says after it. -/
structure Chunk where
  bytes : Text
  eof : Bool
deriving DecidableEq, Repr

/-- What successive calls of `fgets` store, with room for `limit` bytes. The first argument holds
the bytes that the current call has read. -/
def chunks (limit : ℕ) : Text → Text → List Chunk
  | cur, [] => if cur = [] then [] else [⟨cur, true⟩]
  | cur, b :: bs =>
    -- `feof` is not set here, also when `b` is the last byte: `fgets` has not read beyond it.
    if b = newline ∨ cur.length + 1 = limit then ⟨cur ++ [b], false⟩ :: chunks limit [] bs
    else chunks limit (cur ++ [b]) bs

/-- A newline ends a chunk. -/
theorem shape_of_mem_chunks (limit : ℕ) {cur bs : Text} (hcur : newline ∉ cur) {c : Chunk}
    (hc : c ∈ chunks limit cur bs) :
    newline ∉ c.bytes ∨ c.bytes = before newline c.bytes ++ [newline] := by
  induction bs generalizing cur with
  | nil =>
    unfold chunks at hc
    split_ifs at hc with hnil
    · cases hc
    · rw [List.mem_singleton] at hc
      exact .inl (hc ▸ hcur)
  | cons b bs ih =>
    unfold chunks at hc
    by_cases hb : b = newline
    · rw [if_pos (.inl hb)] at hc
      rcases List.mem_cons.1 hc with rfl | hc
      · subst hb
        rw [before_append_cons hcur]
        exact .inr rfl
      · exact ih (by simp) hc
    · have hcur' : newline ∉ cur ++ [b] := notMem_concat (Ne.symm hb) hcur
      split_ifs at hc with hend
      · rcases List.mem_cons.1 hc with rfl | hc
        · exact .inl hcur'
        · exact ih (by simp) hc
      · exact ih hcur' hc

/-- Where each chunk ends in a newline or at the end of the file, the chunks are the lines of the
file, up to empty ones. -/
theorem filterMap_chunks {β : Type*} {g : Text → Option β} (hg : g [] = none) (limit : ℕ)
    {cur bs : Text} (hcur : newline ∉ cur)
    (hall : ∀ c ∈ chunks limit cur bs, newline ∈ c.bytes ∨ c.eof = true) :
    (chunks limit cur bs).filterMap (fun c => g (before newline c.bytes)) =
      ((cur ++ bs).splitOn newline).filterMap g := by
  induction bs generalizing cur with
  | nil =>
    rw [List.append_nil, List.splitOn_eq_singleton hcur]
    unfold chunks
    split_ifs with hnil
    · rw [hnil, List.filterMap_nil, List.filterMap_cons_none hg, List.filterMap_nil]
    · rw [List.filterMap_cons, List.filterMap_cons, before_eq_self hcur]
      rfl
  | cons b bs ih =>
    unfold chunks at hall ⊢
    by_cases hb : b = newline
    · rw [if_pos (.inl hb)] at hall ⊢
      subst hb
      have hempty : newline ∉ ([] : Text) := by simp
      have hrest := ih hempty fun c hc => hall c (List.mem_cons_of_mem _ hc)
      rw [List.splitOn_append_cons_self_of_not_mem hcur, List.filterMap_cons, List.filterMap_cons,
        before_append_cons hcur, hrest, List.nil_append]
    · have hcur' : newline ∉ cur ++ [b] := notMem_concat (Ne.symm hb) hcur
      by_cases hlong : cur.length + 1 = limit
      · -- A chunk that is full is neither ended by a newline nor by the end of the file.
        rw [if_pos (.inr hlong)] at hall
        rcases hall _ List.mem_cons_self with hmem | heof
        · exact absurd hmem hcur'
        · cases heof
      · rw [if_neg (not_or.2 ⟨hb, hlong⟩)] at hall ⊢
        rw [ih hcur' hall, List.append_assoc, List.singleton_append]

/-- What contains no newline and fits is gathered. -/
theorem chunks_append (limit : ℕ) {cur line : Text} (hline : newline ∉ line)
    (hfits : cur.length + line.length < limit) (bs : Text) :
    chunks limit cur (line ++ bs) = chunks limit (cur ++ line) bs := by
  induction line generalizing cur with
  | nil => rw [List.nil_append, List.append_nil]
  | cons b line ih =>
    rw [List.mem_cons, not_or] at hline
    rw [List.length_cons] at hfits
    have hgo : ¬(b = newline ∨ cur.length + 1 = limit) := by
      rintro (rfl | hlen)
      · exact hline.1 rfl
      · omega
    have hfits' : (cur ++ [b]).length + line.length < limit := by
      rw [List.length_append, List.length_singleton]
      omega
    rw [List.cons_append]
    conv_lhs => unfold chunks
    rw [if_neg hgo, ih hline.2 hfits', List.append_assoc, List.singleton_append]

/-- A line that fits is read in one piece. -/
theorem chunks_append_newline (limit : ℕ) {cur line : Text} (hline : newline ∉ line)
    (hfits : cur.length + line.length < limit) (bs : Text) :
    chunks limit cur (line ++ newline :: bs) =
      ⟨cur ++ line ++ [newline], false⟩ :: chunks limit [] bs := by
  rw [chunks_append limit hline hfits]
  conv_lhs => unfold chunks
  rw [if_pos (.inl rfl)]

/-- A line that fits is read in one piece also where the file ends without a newline. -/
theorem chunks_last (limit : ℕ) {cur line : Text} (hline : newline ∉ line)
    (hfits : cur.length + line.length < limit) :
    chunks limit cur line = if cur ++ line = [] then [] else [⟨cur ++ line, true⟩] := by
  have happend := chunks_append limit hline hfits []
  rw [List.append_nil] at happend
  rw [happend]
  unfold chunks
  rfl

/-- A line as a file has it, with its newline or without one at the end of the file. -/
def written (line : Text) (ended : Bool) : Text := if ended then line ++ [newline] else line

/-- A file of one line is read in one piece. -/
theorem chunks_written (limit : ℕ) {line : Text} (hline : newline ∉ line) (hne : line ≠ [])
    (hfits : line.length < limit) (ended : Bool) :
    chunks limit [] (written line ended) = [⟨written line ended, !ended⟩] := by
  cases ended with
  | false =>
    have hlast := @chunks_last limit [] line hline (by simpa using hfits)
    rw [List.nil_append, if_neg hne] at hlast
    exact hlast
  | true => exact chunks_append_newline limit hline (by simpa using hfits) []

/-- A file written line by line is read line by line. -/
theorem chunks_flatMap (limit : ℕ) (lines : List Text)
    (hlines : ∀ line ∈ lines, newline ∉ line ∧ line.length < limit) :
    chunks limit [] (lines.flatMap (· ++ [newline])) =
      lines.map fun line => ⟨line ++ [newline], false⟩ := by
  induction lines with
  | nil => rfl
  | cons line lines ih =>
    obtain ⟨hline, hlen⟩ := hlines line List.mem_cons_self
    rw [List.flatMap_cons, List.append_assoc, List.singleton_append,
      chunks_append_newline limit hline (by simpa using hlen), List.nil_append, List.map_cons,
      ih fun l hl => hlines l (List.mem_cons_of_mem _ hl)]

end Lines
