import Mathlib.Data.Finset.Card
import Mathlib.Data.List.Nodup
import Mathlib.Tactic.Common

/-!
# Tables by key

A list of records, searched from the front for the first one with a key. `put` writes a record over
the one with its key, or appends it. Keys stay distinct, and after a run of writes a key finds the
last record written under it (`find_foldl_put`), where `last` names that record. Writes under new
keys append (`foldl_put_of_nodup`), and a table whose keys lie in a set of `n` keys has room for
each of them in `n` places (`room`).
-/

namespace Keyed

variable {α κ : Type*} [DecidableEq κ] (key : α → κ)

/-- The first record with this key. -/
def find (k : κ) (t : List α) : Option α := t.find? fun a => key a = k

/-- A record written over the first one with its key, or appended. -/
def put (t : List α) (e : α) : List α :=
  match t with
  | [] => [e]
  | a :: t => if key a = key e then e :: t else a :: put t e

/-- The last of these records with this key. -/
def last (k : κ) (es : List α) : Option α := (es.filter fun e => key e = k).getLast?

variable {key}

/-- What is found is in the table, under its key. -/
theorem key_of_find {k : κ} {t : List α} {a : α} (h : find key k t = some a) :
    a ∈ t ∧ key a = k :=
  ⟨List.mem_of_find?_eq_some h, by simpa using List.find?_some h⟩

/-- Nothing is found just if no entry has the key. -/
theorem find_eq_none_iff {k : κ} {t : List α} : find key k t = none ↔ k ∉ t.map key := by
  simp only [find, List.find?_eq_none, decide_eq_true_eq, List.mem_map, not_exists, not_and]

/-- Where all keys are distinct, a key finds its record. -/
theorem find_eq_some_iff {t : List α} (ht : (t.map key).Nodup) {k : κ} {a : α} :
    find key k t = some a ↔ a ∈ t ∧ key a = k := by
  refine ⟨key_of_find, ?_⟩
  rintro ⟨ha, rfl⟩
  cases hfind : find key (key a) t with
  | none => exact absurd (List.mem_map_of_mem ha) (find_eq_none_iff.1 hfind)
  | some b =>
    obtain ⟨hb, hkey⟩ := key_of_find hfind
    rw [List.inj_on_of_nodup_map ht hb ha hkey]

/-- A write finds its record. -/
theorem find_put_self (t : List α) (e : α) : find key (key e) (put key t e) = some e := by
  induction t with
  | nil => simp [find, put]
  | cons a t ih =>
    unfold put
    split_ifs with ha
    · simp [find]
    · rw [find, List.find?_cons_of_neg (by simpa using ha)]
      exact ih

/-- A write leaves the other keys as they are. -/
theorem find_put_of_ne {k : κ} {e : α} (hk : key e ≠ k) (t : List α) :
    find key k (put key t e) = find key k t := by
  induction t with
  | nil => simp [find, put, hk]
  | cons a t ih =>
    unfold put
    split_ifs with ha
    · have hak : key a ≠ k := fun h => hk (ha.symm.trans h)
      rw [find, find, List.find?_cons_of_neg (by simpa using hk),
        List.find?_cons_of_neg (by simpa using hak)]
    · by_cases hak : key a = k
      · rw [find, find, List.find?_cons_of_pos (by simpa using hak),
          List.find?_cons_of_pos (by simpa using hak)]
      · rw [find, find, List.find?_cons_of_neg (by simpa using hak),
          List.find?_cons_of_neg (by simpa using hak)]
        exact ih

/-- A write under a key that is there keeps the keys. -/
theorem map_key_put_of_mem {t : List α} {e : α} (h : key e ∈ t.map key) :
    (put key t e).map key = t.map key := by
  induction t with
  | nil => cases h
  | cons a t ih =>
    unfold put
    split_ifs with ha
    · rw [List.map_cons, List.map_cons, ha]
    · rw [List.map_cons, List.mem_cons] at h
      rw [List.map_cons, List.map_cons, ih (h.resolve_left (Ne.symm ha))]

/-- A write under a new key appends the record. -/
theorem put_of_notMem {t : List α} {e : α} (h : key e ∉ t.map key) : put key t e = t ++ [e] := by
  induction t with
  | nil => rfl
  | cons a t ih =>
    rw [List.map_cons, List.mem_cons, not_or] at h
    unfold put
    rw [if_neg (Ne.symm h.1), ih h.2, List.cons_append]

/-- Putting an entry adds its key to those of the table. -/
theorem mem_keys_put {t : List α} {e : α} {k : κ} :
    k ∈ (put key t e).map key ↔ k = key e ∨ k ∈ t.map key := by
  by_cases h : key e ∈ t.map key
  · rw [map_key_put_of_mem h, or_iff_right_of_imp fun hk => hk ▸ h]
  · rw [put_of_notMem h, List.map_append, List.mem_append, List.map_singleton,
      List.mem_singleton, or_comm]

/-- What a write leaves in the table was there or is its record. -/
theorem mem_put {t : List α} {e a : α} (h : a ∈ put key t e) : a = e ∨ a ∈ t := by
  induction t with
  | nil => exact .inl (List.mem_singleton.1 h)
  | cons b t ih =>
    unfold put at h
    split_ifs at h with hb
    · exact (List.mem_cons.1 h).imp_right (List.mem_cons_of_mem b)
    · rcases List.mem_cons.1 h with rfl | h
      · exact .inr List.mem_cons_self
      · exact (ih h).imp_right (List.mem_cons_of_mem b)

/-- Putting an entry keeps the keys distinct. -/
theorem nodup_put {t : List α} (ht : (t.map key).Nodup) (e : α) :
    ((put key t e).map key).Nodup := by
  by_cases h : key e ∈ t.map key
  · rw [map_key_put_of_mem h]
    exact ht
  · rw [put_of_notMem h, List.map_append]
    exact ht.append (List.nodup_singleton _) (List.disjoint_singleton.2 h)

omit [DecidableEq κ] in
/-- Where all keys are distinct, the key of a record is none of those before it. -/
theorem notMem_of_nodup_append_cons {t es : List α} {e : α}
    (h : ((t ++ e :: es).map key).Nodup) : key e ∉ t.map key := by
  rw [List.map_append, List.nodup_append] at h
  exact fun hmem => h.2.2 _ hmem _ List.mem_cons_self rfl

/-- A table of `n` places stays within them if the key is there or a place is free. -/
theorem length_put_le {t : List α} {e : α} {n : ℕ} (ht : t.length ≤ n)
    (h : key e ∈ t.map key ∨ t.length < n) : (put key t e).length ≤ n := by
  by_cases hmem : key e ∈ t.map key
  · rw [← List.length_map key, map_key_put_of_mem hmem, List.length_map]
    exact ht
  · rw [put_of_notMem hmem, List.length_append, List.length_singleton]
    exact h.resolve_left hmem

/-! ## Runs of writes -/

/-- Putting entries in turn keeps the keys distinct. -/
theorem nodup_foldl_put {t : List α} (ht : (t.map key).Nodup) (es : List α) :
    ((es.foldl (put key) t).map key).Nodup := by
  induction es generalizing t with
  | nil => exact ht
  | cons e es ih => exact ih (nodup_put ht e)

/-- Putting entries in turn adds their keys. -/
theorem mem_keys_foldl_put {t : List α} (es : List α) {k : κ} :
    k ∈ (es.foldl (put key) t).map key ↔ k ∈ es.map key ∨ k ∈ t.map key := by
  induction es generalizing t with
  | nil => simp
  | cons e es ih =>
    rw [List.foldl_cons, ih, mem_keys_put, List.map_cons, List.mem_cons, or_left_comm, or_assoc]

/-- The last entry with a key is in the second list, if there is one in it. -/
theorem last_append (k : κ) (es fs : List α) :
    last key k (es ++ fs) = (last key k fs).or (last key k es) := by
  rw [last, List.filter_append, List.getLast?_append]
  rfl

/-- The last entry with a key in a list of one. -/
theorem last_singleton (k : κ) (e : α) : last key k [e] = if key e = k then some e else none := by
  by_cases h : key e = k <;> simp [last, h]

/-- There is a last entry with a key just if some entry has it. -/
theorem last_eq_none_iff {k : κ} {es : List α} : last key k es = none ↔ k ∉ es.map key := by
  simp only [last, List.getLast?_eq_none_iff, List.filter_eq_nil_iff, decide_eq_true_eq,
    List.mem_map, not_exists, not_and]

/-- The last record with a key among several runs is the last one with it in one of the runs. -/
theorem last_flatMap {β : Type*} {f : β → List α} {k : κ} {bs : List β} {e : α}
    (h : last key k (bs.flatMap f) = some e) : ∃ b ∈ bs, last key k (f b) = some e := by
  induction bs with
  | nil => cases h
  | cons b bs ih =>
    rw [List.flatMap_cons, last_append, Option.or_eq_some_iff] at h
    rcases h with h | ⟨-, h⟩
    · obtain ⟨b', hb', he⟩ := ih h
      exact ⟨b', List.mem_cons_of_mem _ hb', he⟩
    · exact ⟨b, List.mem_cons_self, h⟩

/-- After a run of writes a key finds the last record written under it, and a key that no write is
under what it found before. -/
theorem find_foldl_put (k : κ) (t es : List α) :
    find key k (es.foldl (put key) t) = (last key k es).or (find key k t) := by
  induction es generalizing t with
  | nil => rfl
  | cons e es ih =>
    rw [List.foldl_cons, ih, ← List.singleton_append, last_append, last_singleton, Option.or_assoc]
    by_cases hk : key e = k
    · rw [if_pos hk, ← hk, find_put_self, Option.some_or]
    · rw [if_neg hk, find_put_of_ne hk, Option.none_or]

/-- Writes under keys that are new each time append their records. -/
theorem foldl_put_of_nodup {t es : List α} (h : ((t ++ es).map key).Nodup) :
    es.foldl (put key) t = t ++ es := by
  induction es generalizing t with
  | nil => rw [List.foldl_nil, List.append_nil]
  | cons e es ih =>
    have hnew := notMem_of_nodup_append_cons h
    rw [List.foldl_cons, put_of_notMem hnew, ih (by rwa [List.append_assoc]), List.append_assoc,
      List.singleton_append]

/-- Where the keys of a table lie in a set of at most `n` keys, each key of the set is there or
finds a free place among `n`. -/
theorem room {t : List α} (ht : (t.map key).Nodup) {S : Finset κ} {n : ℕ} (hS : S.card ≤ n)
    (hsub : ∀ k ∈ t.map key, k ∈ S) {k : κ} (hk : k ∈ S) : k ∈ t.map key ∨ t.length < n := by
  by_cases hmem : k ∈ t.map key
  · exact .inl hmem
  · right
    have hnodup : (k :: t.map key).Nodup := List.nodup_cons.2 ⟨hmem, ht⟩
    have hall : (k :: t.map key).toFinset ⊆ S := by
      intro j hj
      rcases List.mem_cons.1 (List.mem_toFinset.1 hj) with rfl | hj
      · exact hk
      · exact hsub j hj
    have hcard := Finset.card_le_card hall
    rw [List.toFinset_card_of_nodup hnodup, List.length_cons, List.length_map] at hcard
    omega

end Keyed
