import Mathlib.Tactic.Common

/-!
# A thread that takes locks

A computation of one thread, with the locks that it holds as part of its state, each as often as it
holds it. A thread that locks a `normal` mutex which it holds waits for itself for ever, and the
computation has no result; a `recursive` mutex counts.

`Does` is what a computation does that leaves the locks as they were, and `Blocks` is that it waits
for ever. The rules of the file put them together along a computation: steps that take no lock,
sequences, loops, and critical sections (`Does.critical`, `Blocks.critical`).
-/

namespace Locking

/-- What a mutex does when the thread that holds it locks it again. -/
inductive Kind where
  | normal
  | recursive
deriving DecidableEq, Repr

/-- The state of a thread: the locks that it holds, and what the locks protect. -/
structure Thread (ι σ : Type) where
  held : List ι
  state : σ

/-- A computation of a thread. It has no result when it waits for ever. -/
abbrev ThreadM (ι σ : Type) := StateT (Thread ι σ) Option

variable {ι σ α β : Type}

/-- A step that takes no lock. -/
def step (f : σ → α × σ) : ThreadM ι σ α := fun t =>
  let r := f t.state
  some (r.1, ⟨t.held, r.2⟩)

/-- A step that reads the state. -/
def view (f : σ → α) : ThreadM ι σ α := step fun s => (f s, s)

/-- A step that changes the state. -/
def update (f : σ → σ) : ThreadM ι σ Unit := step fun s => ((), f s)

/-- The thread does not wait for ever when it locks `l`. -/
def Available (kind : Kind) (held : List ι) (l : ι) : Prop := kind = .recursive ∨ l ∉ held

/-- A recursive mutex is always available. -/
theorem available_recursive (held : List ι) (l : ι) : Available .recursive held l := .inl rfl

/-- A lock is as available while another one is held. -/
theorem Available.cons {kind : Kind} {held : List ι} {l l' : ι} (h : Available kind held l)
    (hne : l ≠ l') : Available kind (l' :: held) l := by
  rcases h with h | h
  · exact .inl h
  · right
    rw [List.mem_cons, not_or]
    exact ⟨hne, h⟩

/-- A normal mutex is not available while it is held. -/
theorem not_available_of_mem {held : List ι} {l : ι} (h : l ∈ held) :
    ¬Available .normal held l := by
  rintro (hkind | hl)
  · cases hkind
  · exact hl h

section Locks

variable [DecidableEq ι]

/-- Whether a mutex is available can be decided. -/
instance (kind : Kind) (held : List ι) (l : ι) : Decidable (Available kind held l) :=
  inferInstanceAs (Decidable (_ ∨ _))

/-- `pthread_mutex_lock(l)`. -/
def lock (kind : Kind) (l : ι) : ThreadM ι σ Unit := fun t =>
  if Available kind t.held l then some ((), ⟨l :: t.held, t.state⟩) else none

/-- `pthread_mutex_unlock(l)`. -/
def unlock (l : ι) : ThreadM ι σ Unit := fun t => some ((), ⟨t.held.erase l, t.state⟩)

/-- `lock(l); body; unlock(l)`. -/
def critical (kind : Kind) (l : ι) (body : ThreadM ι σ α) : ThreadM ι σ α := do
  lock kind l
  let a ← body
  unlock l
  return a

end Locks

/-- With these locks held and in the state `s`, the computation gives `a`, and leaves the locks as
they were and the state `s'`. -/
def Does (m : ThreadM ι σ α) (held : List ι) (s : σ) (a : α) (s' : σ) : Prop :=
  m ⟨held, s⟩ = some (a, ⟨held, s'⟩)

/-- With these locks held and in the state `s`, the computation waits for ever. -/
def Blocks (m : ThreadM ι σ α) (held : List ι) (s : σ) : Prop := m ⟨held, s⟩ = none

section Rules

variable {m : ThreadM ι σ α} {f : α → ThreadM ι σ β} {held : List ι} {s s' s'' : σ} {a : α} {b : β}

/-- Returning a value does nothing else. -/
theorem does_pure (held : List ι) (s : σ) (a : α) : Does (pure a) held s a s := rfl

/-- A step returns and leaves what its function says. -/
theorem does_step (f : σ → α × σ) (held : List ι) (s : σ) :
    Does (step f) held s (f s).1 (f s).2 := rfl

/-- A view leaves the state. -/
theorem does_view (f : σ → α) (held : List ι) (s : σ) : Does (view f) held s (f s) s := rfl

/-- An update changes the state. -/
theorem does_update (f : σ → σ) (held : List ι) (s : σ) : Does (update f) held s () (f s) := rfl

/-- A sequence runs its second part on the thread that the first one leaves. -/
theorem bind_apply (m : ThreadM ι σ α) (f : α → ThreadM ι σ β) (t : Thread ι σ) :
    (m >>= f) t = (m t).bind fun r => f r.1 r.2 := rfl

/-- A sequence goes on from where its first part ends. -/
theorem Does.bind_eq (h : Does m held s a s') : (m >>= f) ⟨held, s⟩ = f a ⟨held, s'⟩ := by
  rw [bind_apply, h, Option.bind_some]

/-- Two parts that do something do it one after the other. -/
theorem Does.bind (h : Does m held s a s') (hf : Does (f a) held s' b s'') :
    Does (m >>= f) held s b s'' :=
  h.bind_eq.trans hf

/-- A thread that blocks in its first part blocks. -/
theorem Blocks.bind (h : Blocks m held s) : Blocks (m >>= f) held s := by
  rw [Blocks, bind_apply, h, Option.bind_none]

/-- A thread whose second part blocks blocks. -/
theorem Does.bind_blocks (h : Does m held s a s') (hf : Blocks (f a) held s') :
    Blocks (m >>= f) held s :=
  h.bind_eq.trans hf

end Rules

section Critical

variable [DecidableEq ι] {kind : Kind} {l : ι} {m : ThreadM ι σ α} {held : List ι} {s s' : σ}
  {a : α}

/-- A critical section does what its body does. -/
theorem Does.critical (hl : Available kind held l) (h : Does m (l :: held) s a s') :
    Does (critical kind l m) held s a s' := by
  have hlock : lock kind l ⟨held, s⟩ = some ((), ⟨l :: held, s⟩) := if_pos hl
  rw [Does, Locking.critical, bind_apply, hlock, Option.bind_some, h.bind_eq,
    bind_apply, unlock, List.erase_cons_head]
  rfl

/-- A critical section waits for ever when its lock is not available. -/
theorem Blocks.critical (hl : ¬Available kind held l) : Blocks (critical kind l m) held s :=
  Blocks.bind (if_neg hl)

/-- A critical section waits for ever when its body does. -/
theorem Blocks.critical_body (h : Blocks m (l :: held) s) :
    Blocks (Locking.critical kind l m) held s := by
  by_cases hl : Available kind held l
  · have hlock : lock kind l ⟨held, s⟩ = some ((), ⟨l :: held, s⟩) := if_pos hl
    rw [Blocks, Locking.critical, bind_apply, hlock]
    exact Blocks.bind h
  · exact .critical hl

end Critical

section Loops

variable {held : List ι}

/-- A loop whose rounds change the state. -/
theorem Does.forM {body : β → ThreadM ι σ Unit} {f : σ → β → σ}
    (h : ∀ b s, Does (body b) held s () (f s b)) :
    ∀ (bs : List β) (s : σ), Does (bs.forM body) held s () (bs.foldl f s)
  | [], s => does_pure held s ()
  | b :: bs, s => (h b s).bind (Does.forM h bs (f s b))

/-- A loop whose rounds change a local variable and leave the state. -/
theorem Does.foldlM {body : α → β → ThreadM ι σ α} {f : α → β → α} {s : σ}
    (h : ∀ a b, Does (body a b) held s (f a b) s) :
    ∀ (bs : List β) (a : α), Does (bs.foldlM body a) held s (bs.foldl f a) s
  | [], a => does_pure held s a
  | b :: bs, a => (h a b).bind (Does.foldlM h bs (f a b))

/-- A loop one of whose rounds waits for ever, and whose other rounds keep what makes it do so. -/
theorem Blocks.forM {body : β → ThreadM ι σ Unit} {P : σ → Prop}
    (h : ∀ b s, P s → Blocks (body b) held s ∨ ∃ s', Does (body b) held s () s' ∧ P s') {b : β}
    (hb : ∀ s, P s → Blocks (body b) held s) :
    ∀ {bs : List β} {s : σ}, b ∈ bs → P s → Blocks (bs.forM body) held s
  | c :: bs, s, hmem, hs => by
    rcases h c s hs with hblocks | ⟨s', hdoes, hs'⟩
    · exact hblocks.bind
    · rcases List.mem_cons.1 hmem with rfl | hmem
      · exact (hb s hs).bind
      · exact hdoes.bind_blocks (Blocks.forM h hb hmem hs')

/-- A loop whose rounds keep what makes them end. -/
theorem Does.forM_exists {body : β → ThreadM ι σ Unit} {P : σ → Prop} :
    ∀ {bs : List β} {s : σ}, (∀ b ∈ bs, ∀ s, P s → ∃ s', Does (body b) held s () s' ∧ P s') →
      P s → ∃ s', Does (bs.forM body) held s () s' ∧ P s'
  | [], s, _, hs => ⟨s, does_pure held s (), hs⟩
  | b :: bs, s, h, hs => by
    rw [List.forall_mem_cons] at h
    obtain ⟨s', hdoes, hs'⟩ := h.1 s hs
    obtain ⟨s'', hrest, hs''⟩ := Does.forM_exists h.2 hs'
    exact ⟨s'', hdoes.bind hrest, hs''⟩

end Loops

end Locking
