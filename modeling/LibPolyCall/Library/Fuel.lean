import Mathlib.Logic.Relation
import Mathlib.Tactic.Common

/-!
# Loops with fuel

A computation that may not end is a function of its fuel: `none` when the fuel does not suffice. It
settles on a value when it has this value with enough fuel and no other with less, and it diverges
when no fuel suffices. `loop` is the `while` loop whose rounds may not end themselves. The rules of
the file follow a loop round by round (`loop_done`, `loop_round`), or show that it diverges: because
a round does, or because something holds in every round and keeps the condition true
(`loop_diverges`). `Visits` are the states between the rounds, also of a loop that does not end.
-/

namespace Fuel

variable {α β σ : Type*}

/-- With enough fuel the value is `a`, and with less there is none. -/
def Settles (f : ℕ → Option α) (a : α) : Prop :=
  (∀ n b, f n = some b → b = a) ∧ ∃ N, ∀ n, N ≤ n → f n = some a

/-- There is no value, whatever the fuel. -/
def Diverges (f : ℕ → Option α) : Prop := ∀ n, f n = none

/-- `while (cond(s)) s = body(s)`. -/
def loop (cond : σ → Bool) (body : ℕ → σ → Option σ) : ℕ → σ → Option σ
  | 0, _ => none
  | n + 1, s => if cond s then (body n s).bind (loop cond body n) else some s

section Values

variable {f : ℕ → Option α} {a : α}

/-- What does not depend on the fuel settles on its value. -/
theorem settles_of_forall (h : ∀ n, f n = some a) : Settles f a :=
  ⟨fun n _ hb => (Option.some.inj ((h n).symm.trans hb)).symm, 0, fun n _ => h n⟩

/-- A constant result settles. -/
theorem settles_some (a : α) : Settles (fun _ => some a) a := settles_of_forall fun _ => rfl

/-- Any result of a function that settles is the one it settles on. -/
theorem Settles.eq_of_some (h : Settles f a) {n : ℕ} {b : α} (hb : f n = some b) : b = a :=
  h.1 n b hb

/-- A function settles on one result. -/
theorem Settles.unique {b : α} (h : Settles f a) (hb : Settles f b) : a = b := by
  obtain ⟨-, N, hN⟩ := h
  exact hb.1 N a (hN N (Nat.le_refl N))

/-- What settles does not diverge. -/
theorem Settles.not_diverges (h : Settles f a) : ¬Diverges f := by
  obtain ⟨-, N, hN⟩ := h
  intro hnone
  cases (hnone N).symm.trans (hN N (Nat.le_refl N))

/-- What settles returns with some fuel. -/
theorem Settles.exists_some (h : Settles f a) : ∃ n, f n = some a := by
  obtain ⟨-, N, hN⟩ := h
  exact ⟨N, hN N (Nat.le_refl N)⟩

/-- One function after the other settles if both do. -/
theorem Settles.bind {g : ℕ → α → Option β} {b : β} (h : Settles f a)
    (hg : Settles (fun n => g n a) b) : Settles (fun n => (f n).bind (g n)) b := by
  obtain ⟨honly, N, hN⟩ := h
  obtain ⟨honly', N', hN'⟩ := hg
  refine ⟨fun n c hc => ?_, max N N', fun n hn => ?_⟩
  · obtain ⟨a', ha', hc⟩ := Option.bind_eq_some_iff.1 hc
    rw [honly n a' ha'] at hc
    exact honly' n c hc
  · show (f n).bind (g n) = some b
    rw [hN n (by omega)]
    exact hN' n (by omega)

/-- What settles still does so under a map of its result. -/
theorem Settles.map (h : Settles f a) (g : α → β) : Settles (fun n => (f n).map g) (g a) := by
  obtain ⟨honly, N, hN⟩ := h
  refine ⟨fun n b hb => ?_, N, fun n hn => ?_⟩
  · obtain ⟨a', ha', rfl⟩ := Option.map_eq_some_iff.1 hb
    rw [honly n a' ha']
  · show (f n).map g = some (g a)
    rw [hN n hn, Option.map_some]

/-- What needs fuel for its first step settles on what is behind this step. -/
theorem Settles.succ (h0 : f 0 = none) (h : Settles (fun n => f (n + 1)) a) : Settles f a := by
  obtain ⟨honly, N, hN⟩ := h
  refine ⟨fun n b hb => ?_, N + 1, fun n hn => ?_⟩
  · cases n with
    | zero =>
      rw [h0] at hb
      cases hb
    | succ n => exact honly n b hb
  · obtain ⟨n, rfl⟩ : ∃ m, n = m + 1 := Nat.exists_eq_add_one.2 (by omega)
    exact hN n (by omega)

/-- A list settles when its elements do. -/
theorem settles_mapM {γ : Type*} {g : ℕ → γ → Option α} {v : γ → α} :
    ∀ {xs : List γ}, (∀ x ∈ xs, Settles (fun n => g n x) (v x)) →
      Settles (fun n => xs.mapM (g n)) (xs.map v)
  | [], _ => settles_some []
  | x :: xs, h => by
    rw [List.forall_mem_cons] at h
    have hrest := (settles_mapM h.2).map (v x :: ·)
    have hboth := h.1.bind (g := fun n b => (xs.mapM (g n)).map (b :: ·)) hrest
    have hcons : (fun n => (x :: xs).mapM (g n)) =
        fun n => (g n x).bind fun b => (xs.mapM (g n)).map (b :: ·) := by
      funext n
      rw [List.mapM_cons]
      cases g n x <;> cases xs.mapM (g n) <;> rfl
    rw [hcons]
    exact hboth

/-- A fold settles when its steps do. -/
theorem settles_foldlM {γ : Type*} {g : ℕ → α → γ → Option α} {v : α → γ → α} :
    ∀ {xs : List γ} (a : α), (∀ x ∈ xs, ∀ a, Settles (fun n => g n a x) (v a x)) →
      Settles (fun n => xs.foldlM (g n) a) (xs.foldl v a)
  | [], a, _ => settles_some a
  | x :: xs, a, h => by
    rw [List.forall_mem_cons] at h
    simp only [List.foldlM_cons, List.foldl_cons]
    exact (h.1 a).bind (settles_foldlM (v a x) h.2)

/-- A fold has no value when a step never has one. -/
theorem foldlM_eq_none {γ : Type*} {g : α → γ → Option α} {x : γ} (h : ∀ a, g a x = none) :
    ∀ {xs : List γ} (a : α), x ∈ xs → xs.foldlM g a = none
  | y :: xs, a, hx => by
    rw [List.foldlM_cons]
    rcases List.mem_cons.1 hx with rfl | hx
    · rw [h a]
      rfl
    · cases hy : g a y with
      | none => rfl
      | some b => exact foldlM_eq_none h b hx

/-- What diverges still does so under a map of its result. -/
theorem Diverges.map (h : Diverges f) (g : α → β) : Diverges (fun n => (f n).map g) := fun n => by
  show (f n).map g = none
  rw [h n, Option.map_none]

/-- If the first of two functions diverges, both together do. -/
theorem Diverges.bind {g : ℕ → α → Option β} (h : Diverges f) :
    Diverges (fun n => (f n).bind (g n)) := fun n => by
  show (f n).bind (g n) = none
  rw [h n, Option.bind_none]

/-- If the second of two functions diverges, both together do. -/
theorem Settles.bind_diverges {g : ℕ → α → Option β} (h : Settles f a)
    (hg : Diverges (fun n => g n a)) : Diverges (fun n => (f n).bind (g n)) := by
  intro n
  show (f n).bind (g n) = none
  cases hf : f n with
  | none => rfl
  | some a' =>
    obtain rfl := h.eq_of_some hf
    exact hg n

end Values

section Loops

variable {cond : σ → Bool} {body : ℕ → σ → Option σ} {s s' r : σ}

/-- The loop ends where its condition is false. -/
theorem loop_done (h : cond s = false) : Settles (fun n => loop cond body n s) s := by
  refine ⟨fun n r hr => ?_, 1, fun n hn => ?_⟩
  · cases n with
    | zero => cases hr
    | succ n =>
      have hr' : loop cond body (n + 1) s = some r := hr
      rw [loop, if_neg (by simp [h])] at hr'
      exact (Option.some.inj hr').symm
  · obtain ⟨n, rfl⟩ : ∃ m, n = m + 1 := Nat.exists_eq_add_one.2 hn
    show loop cond body (n + 1) s = some s
    rw [loop, if_neg (by simp [h])]

/-- The fuel of a round and of the rounds behind it is that of the loop but one. -/
theorem loop_succ (h : cond s = true) (n : ℕ) :
    loop cond body (n + 1) s = (body n s).bind (loop cond body n) := by
  rw [loop, if_pos h]

/-- The loop goes on from where a round ends. -/
theorem loop_round (h : cond s = true) (hbody : Settles (fun n => body n s) s')
    (hloop : Settles (fun n => loop cond body n s') r) :
    Settles (fun n => loop cond body n s) r := by
  obtain ⟨honly, N, hN⟩ := hbody.bind (g := loop cond body) hloop
  refine ⟨fun n b hb => ?_, N + 1, fun n hn => ?_⟩
  · cases n with
    | zero => cases hb
    | succ n =>
      have hb' : loop cond body (n + 1) s = some b := hb
      rw [loop_succ h] at hb'
      exact honly n b hb'
  · obtain ⟨n, rfl⟩ : ∃ m, n = m + 1 := Nat.exists_eq_add_one.2 (by omega)
    show loop cond body (n + 1) s = some r
    rw [loop_succ h]
    exact hN n (by omega)

/-- A loop that ends goes on behind its first round. -/
theorem loop_first (h : cond s = true) (hbody : Settles (fun n => body n s) s') {n : ℕ}
    (hr : loop cond body n s = some r) : ∃ m, loop cond body m s' = some r := by
  cases n with
  | zero => cases hr
  | succ n =>
    rw [loop_succ h] at hr
    obtain ⟨s'', hround, hrest⟩ := Option.bind_eq_some_iff.1 hr
    obtain rfl := hbody.eq_of_some hround
    exact ⟨n, hrest⟩

/-- The loop diverges when it does so from where a round ends. -/
theorem loop_round_diverges (h : cond s = true) (hbody : Settles (fun n => body n s) s')
    (hloop : Diverges (fun n => loop cond body n s')) :
    Diverges (fun n => loop cond body n s) := by
  have hboth := hbody.bind_diverges (g := loop cond body) hloop
  rintro (_ | n)
  · rfl
  · show loop cond body (n + 1) s = none
    rw [loop_succ h]
    exact hboth n

/-- The loop diverges when something is true at its start, keeps the condition true, and is either
met by a round that diverges or true again behind the round. -/
theorem loop_diverges (I : σ → Prop) (hcond : ∀ s, I s → cond s = true)
    (hbody : ∀ s, I s → Diverges (fun n => body n s) ∨
      ∃ s', Settles (fun n => body n s) s' ∧ I s') (hs : I s) :
    Diverges (fun n => loop cond body n s) := by
  intro n
  show loop cond body n s = none
  -- With no fuel there is no value, and every round needs some.
  induction n generalizing s with
  | zero => rfl
  | succ n ih =>
    rw [loop_succ (hcond s hs)]
    rcases hbody s hs with hdiverges | ⟨s', hsettles, hs'⟩
    · have hround : body n s = none := hdiverges n
      rw [hround, Option.bind_none]
    · cases hround : body n s with
      | none => rfl
      | some s'' =>
        obtain rfl := hsettles.eq_of_some hround
        exact ih hs'

/-- What every round keeps holds behind the loop. -/
theorem loop_keeps (P : σ → Prop) (hbody : ∀ n s s', P s → body n s = some s' → P s') {n : ℕ}
    (hs : P s) (h : loop cond body n s = some r) : P r := by
  induction n generalizing s with
  | zero => cases h
  | succ n ih =>
    rw [loop] at h
    split_ifs at h
    · obtain ⟨s', hround, hrest⟩ := Option.bind_eq_some_iff.1 h
      exact ih (hbody n s s' hs hround) hrest
    · exact Option.some.inj h ▸ hs

/-- A round of a loop. -/
def Round (cond : σ → Bool) (body : ℕ → σ → Option σ) (s s' : σ) : Prop :=
  cond s = true ∧ Settles (fun n => body n s) s'

/-- The states that a loop comes to between its rounds. -/
def Visits (cond : σ → Bool) (body : ℕ → σ → Option σ) : σ → σ → Prop :=
  Relation.ReflTransGen (Round cond body)

variable {t : σ}

/-- Behind its first round a loop visits what it visits from there. -/
theorem visits_iff_of_round (h : Round cond body s s') :
    Visits cond body s t ↔ t = s ∨ Visits cond body s' t := by
  constructor
  · intro hvisit
    rcases hvisit.cases_head with rfl | ⟨s'', hround, hrest⟩
    · exact .inl rfl
    · rw [h.2.unique hround.2]
      exact .inr hrest
  · rintro (rfl | hrest)
    · exact .refl
    · exact .head h hrest

/-- A loop that has ended visits nothing else. -/
theorem visits_iff_of_done (h : cond s = false) : Visits cond body s t ↔ t = s := by
  constructor
  · intro hvisit
    rcases hvisit.cases_head with rfl | ⟨s'', hround, -⟩
    · rfl
    · cases h.symm.trans hround.1
  · rintro rfl
    exact .refl

/-- Nor does one whose round changes nothing. -/
theorem visits_iff_of_fixed (h : Settles (fun n => body n s) s) :
    Visits cond body s t ↔ t = s := by
  constructor
  · intro hvisit
    induction hvisit with
    | refl => rfl
    | tail _ hround ih =>
      subst ih
      exact (h.unique hround.2).symm
  · rintro rfl
    exact .refl

end Loops

end Fuel
