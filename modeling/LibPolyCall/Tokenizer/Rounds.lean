import LibPolyCall.Library.Walks
import LibPolyCall.Tokenizer.Reference

/-!
# The rounds of the loop

The loop of `polycall_tokenizer_process` as a machine: `Round` is a round that goes on, and `Ends`
is how the last one ends. `process_eq_some_iff` says that a call returns just what some rounds and
an end make of the tokenizer. A token is stored where a lexeme is taken or the buffer ends
(`Stores`); it stays where it is stored (`Stores.getElem?_tokens`), a call adds no others
(`exists_stores`), and each place of the array is filled in one state (`Stores.unique`).
-/

namespace LibPolyCall.Tokenizer

open Scan Walks

/-- The loop is at a lexeme of this operation, of this length. -/
structure Takes (ops : TokenizerOperations) (t : PolycallTokenizer)
    (op : TokenPattern × TokenConsumer) (length : ℕ) : Prop where
  inside : t.input.position < t.input.size
  noSpace : isSpace (byteAt t.current 0) = false
  matched : firstMatch ops t.current = some (op, length)

/-- A round that goes on. -/
inductive Round (strtod : Text → UInt64) (ops : TokenizerOperations) :
    PolycallTokenizer → PolycallTokenizer → Prop
  | skip {t : PolycallTokenizer} (inside : t.input.position < t.input.size)
      (hspace : isSpace (byteAt t.current 0) = true) :
      Round strtod ops t (t.skip (byteAt t.current 0))
  | take {t : PolycallTokenizer} {op : TokenPattern × TokenConsumer} {length : ℕ}
      (h : Takes ops t op length) (hpos : 0 < length) :
      Round strtod ops t (t.take strtod op length)

/-- How the loop ends, with what the function returns and leaves behind. -/
inductive Ends (ops : TokenizerOperations) : PolycallTokenizer → Bool × PolycallTokenizer → Prop
  | full {t : PolycallTokenizer} (h : ¬t.input.position < t.input.size) :
      Ends ops t (true, finish t)
  | stuck {t : PolycallTokenizer} (inside : t.input.position < t.input.size)
      (noSpace : isSpace (byteAt t.current 0) = false) (h : firstMatch ops t.current = none) :
      Ends ops t (false, setErrorState t (lit "Invalid input"))

/-- The tokenizer when the loop starts. -/
def PolycallTokenizer.started (t : PolycallTokenizer) : PolycallTokenizer :=
  { t with state := { t.state with current := .scanning } }

section Rounds

variable {strtod : Text → UInt64} {ops : TokenizerOperations} {s s' s'' t : PolycallTokenizer}
  {out out' : Bool × PolycallTokenizer}

/-- A round leaves the size of the buffer. -/
theorem Round.size_eq (h : Round strtod ops s s') : s'.input.size = s.input.size := by
  cases h <;> rfl

/-- A round that goes on moves the position. -/
theorem Round.position_lt (h : Round strtod ops s s') : s.input.position < s'.input.position := by
  cases h with
  | skip => exact Nat.lt_succ_self _
  | take _ hpos => exact Nat.lt_add_of_pos_right hpos

/-- A match is that of one operation, of one length. -/
theorem Takes.unique {op op' : TokenPattern × TokenConsumer} {n n' : ℕ} (h : Takes ops s op n)
    (h' : Takes ops s op' n') : op = op' ∧ n = n' :=
  Prod.mk.inj (Option.some.inj (h.matched.symm.trans h'.matched))

/-- A round leads to one state. -/
theorem Round.unique (h : Round strtod ops s s') (h' : Round strtod ops s s'') : s' = s'' := by
  cases h with
  | skip inside hspace =>
    cases h' with
    | skip => rfl
    | take h' => rw [h'.noSpace] at hspace; cases hspace
  | take h =>
    cases h' with
    | skip _ hspace => rw [h.noSpace] at hspace; cases hspace
    | take h' =>
      obtain ⟨rfl, rfl⟩ := h.unique h'
      rfl

/-- The loop ends in one way. -/
theorem Ends.unique (h : Ends ops s out) (h' : Ends ops s out') : out = out' := by
  cases h with
  | full hfull =>
    cases h' with
    | full => rfl
    | stuck inside => exact absurd inside hfull
  | stuck inside =>
    cases h' with
    | full hfull => exact absurd inside hfull
    | stuck => rfl

/-- The loop does not go on where it ends. -/
theorem Ends.not_round (h : Ends ops s out) : ¬Round strtod ops s s' := by
  intro hround
  cases h with
  | full h =>
    cases hround with
    | skip inside => exact h inside
    | take htakes => exact h htakes.inside
  | stuck _ noSpace h =>
    cases hround with
    | skip _ hspace => rw [noSpace] at hspace; cases hspace
    | take htakes => rw [htakes.matched] at h; cases h

/-- The loop as a machine. -/
def rounds (strtod : Text → UInt64) (ops : TokenizerOperations) :
    Machine PolycallTokenizer (Bool × PolycallTokenizer) where
  step := Round strtod ops
  ends := Ends ops
  step_unique := Round.unique
  ends_unique := Ends.unique
  not_step := Ends.not_round

/-- The states in which the rounds of a call start. -/
def InCall (strtod : Text → UInt64) (ops : TokenizerOperations) (t s : PolycallTokenizer) : Prop :=
  (rounds strtod ops).Reaches t.started s

/-- From a state on a call returns this. -/
def Returns (strtod : Text → UInt64) (ops : TokenizerOperations) (s : PolycallTokenizer)
    (out : Bool × PolycallTokenizer) : Prop :=
  (rounds strtod ops).Leads s out

/-- Where the match has no bytes the loop neither ends nor goes on. -/
theorem Takes.not_returns {op : TokenPattern × TokenConsumer} (h : Takes ops s op 0) :
    ¬Returns strtod ops s out := by
  refine Machine.not_leads_of_stuck (fun hends => ?_) fun s' hround => ?_
  · cases hends with
    | full hfull => exact hfull h.inside
    | stuck _ _ hnone => rw [h.matched] at hnone; cases hnone
  · cases hround with
    | skip _ hspace => rw [h.noSpace] at hspace; cases hspace
    | take h' hpos => exact hpos.ne (h.unique h').2

/-- The loop returns what its rounds lead to. -/
theorem processLoop_eq_some_iff {left : ℕ} (hsize : s.input.size ≤ s.input.position + left) :
    processLoop strtod ops left s = some out ↔ Returns strtod ops s out := by
  induction left generalizing s with
  | zero =>
    have hends : Ends ops s (true, finish s) := .full (by omega)
    rw [processLoop, Option.some_inj]
    exact (Machine.leads_iff_of_ends hends).symm
  | succ left ih =>
    have hgo : ∀ s', Round strtod ops s s' →
        (processLoop strtod ops left s' = some out ↔ Returns strtod ops s out) := by
      intro s' hround
      have hmoved := hround.position_lt
      rw [ih (by rw [hround.size_eq]; omega)]
      exact (Machine.leads_iff_of_step hround).symm
    have hstop : ∀ out', Ends ops s out' → (some out' = some out ↔ Returns strtod ops s out) := by
      intro out' hends
      rw [Option.some_inj]
      exact (Machine.leads_iff_of_ends hends).symm
    rw [processLoop]
    split_ifs with inside hspace
    · exact hgo _ (.skip inside hspace)
    · have noSpace : isSpace (byteAt s.current 0) = false := by simpa using hspace
      split
      · rename_i hnone
        exact hstop _ (.stuck inside noSpace hnone)
      · rename_i op length hmatch
        have htakes : Takes ops s op length := ⟨inside, noSpace, hmatch⟩
        split_ifs with hzero
        · subst hzero
          exact iff_of_false id htakes.not_returns
        · exact hgo _ (.take htakes (Nat.pos_of_ne_zero hzero))
    · exact hstop _ (.full inside)

/-- A call returns what its rounds lead to. -/
theorem process_eq_some_iff :
    process strtod t (some ops) = some out ↔ Returns strtod ops t.started out := by
  have hrounds : t.started.input.size ≤
      t.started.input.position + (t.input.size - t.input.position) := by
    show t.input.size ≤ t.input.position + _
    omega
  exact processLoop_eq_some_iff hrounds

/-- The states of a call are one behind the other: none is in the middle of a round. -/
theorem InCall.position_cases (h : InCall strtod ops t s) (h' : InCall strtod ops t s')
    (hround : Round strtod ops s s'') :
    s'.input.position < s.input.position ∨ s' = s ∨ s''.input.position ≤ s'.input.position :=
  Machine.Reaches.cases (m := rounds strtod ops) (fun _ _ => Round.position_lt) h h' hround

end Rounds

/-! ## The tokens of a call -/

/-- The token that is stored, as far as there is room: that of the lexeme that is taken, or the
`EOF` token at the end. -/
inductive Emits (strtod : Text → UInt64) (ops : TokenizerOperations) :
    PolycallTokenizer → PolycallToken → Prop
  | lexeme {s : PolycallTokenizer} {op : TokenPattern × TokenConsumer} {length : ℕ}
      (h : Takes ops s op length) (hpos : 0 < length) :
      Emits strtod ops s (makeToken strtod s.position s.input.position op s.current length)
  | eof {s : PolycallTokenizer} (h : ¬s.input.position < s.input.size) :
      Emits strtod ops s (eofToken s.position)

/-- There is room for a token. -/
def PolycallTokenizer.HasRoom (t : PolycallTokenizer) : Prop :=
  t.tokens.tokens.length < t.tokens.capacity.toNat

/-- In a state of the call a token is stored. -/
structure Stores (strtod : Text → UInt64) (ops : TokenizerOperations) (t s : PolycallTokenizer)
    (token : PolycallToken) : Prop where
  inCall : InCall strtod ops t s
  emits : Emits strtod ops s token
  room : s.HasRoom

section Tokens

variable {strtod : Text → UInt64} {ops : TokenizerOperations} {s s' t t' : PolycallTokenizer}
  {out : Bool × PolycallTokenizer} {token : PolycallToken}

/-- Rounds add tokens, and keep those that are stored. -/
theorem Round.tokens_isPrefix (h : Round strtod ops s s') :
    s.tokens.tokens <+: s'.tokens.tokens := by
  cases h with
  | skip => exact List.prefix_rfl
  | take => exact PolycallTokenArray.prefix_add _ _

/-- The tokens of a state on the way stay in front. -/
theorem tokens_prefix_of_reaches (h : (rounds strtod ops).Reaches s s') :
    s.tokens.tokens <+: s'.tokens.tokens :=
  Machine.Reaches.rel (fun s => s.tokens.tokens) (fun _ => List.prefix_rfl)
    (fun _ _ _ => List.IsPrefix.trans) (fun _ _ => Round.tokens_isPrefix) h

/-- What is stored stays to the end. -/
theorem Returns.tokens_isPrefix (h : Returns strtod ops s out) :
    s.tokens.tokens <+: out.2.tokens.tokens := by
  obtain ⟨last, hreach, hends⟩ := h
  have hlast := tokens_prefix_of_reaches hreach
  cases hends with
  | full => exact hlast.trans (PolycallTokenArray.prefix_add _ _)
  | stuck => exact hlast

/-- With room a token comes behind the others. -/
theorem PolycallTokenizer.HasRoom.tokens_add (h : s.HasRoom) (token : PolycallToken) :
    (s.tokens.add token).tokens = s.tokens.tokens ++ [token] := by
  rw [PolycallTokenArray.tokens_add]
  exact if_pos h

/-- What follows a state that stores a token has the token. -/
theorem Emits.tokens_isPrefix (h : Emits strtod ops s token) (hroom : s.HasRoom)
    (hround : Round strtod ops s s') : s.tokens.tokens ++ [token] <+: s'.tokens.tokens := by
  rw [← hroom.tokens_add]
  cases h with
  | lexeme htakes hpos =>
    obtain rfl := (Round.take htakes hpos).unique hround
    exact List.prefix_rfl
  | eof hfull => exact absurd hround (Ends.full hfull).not_round

/-- A token that is stored is behind those that were stored before. -/
theorem Stores.getElem?_tokens (h : Stores strtod ops t s token)
    (hreturns : Returns strtod ops t.started out) :
    out.2.tokens.tokens[s.tokens.tokens.length]? = some token := by
  have hs : Returns strtod ops s out := h.inCall.leads hreturns
  have hstart : s.tokens.tokens ++ [token] <+: out.2.tokens.tokens := by
    rw [← h.room.tokens_add]
    cases h.emits with
    | lexeme htakes hpos =>
      have hround : Round strtod ops s _ := .take htakes hpos
      exact Returns.tokens_isPrefix ((Machine.leads_iff_of_step hround).1 hs)
    | eof hfull =>
      have hends : Ends ops s _ := .full hfull
      obtain rfl := (Machine.leads_iff_of_ends hends).1 hs
      exact List.prefix_rfl
  obtain ⟨rest, hrest⟩ := hstart
  rw [← hrest, List.append_assoc, List.getElem?_append_right (Nat.le_refl _), Nat.sub_self]
  rfl

/-- A token that an array has and did not have before was added. -/
theorem of_getElem?_add {array : PolycallTokenArray} {added : PolycallToken} {k : ℕ}
    (h : (array.add added).tokens[k]? = some token) (hnew : array.tokens[k]? ≠ some token) :
    added = token ∧ array.tokens.length < array.capacity.toNat ∧ array.tokens.length = k := by
  rw [PolycallTokenArray.tokens_add] at h
  split_ifs at h with hroom
  · rcases Nat.lt_or_ge k array.tokens.length with hlt | hge
    · rw [List.getElem?_append_left hlt] at h
      exact absurd h hnew
    · rw [List.getElem?_append_right hge] at h
      obtain ⟨hindex, hget⟩ := List.getElem?_eq_some_iff.1 h
      rw [List.length_singleton] at hindex
      refine ⟨?_, hroom, by omega⟩
      rw [← hget, List.getElem_singleton]
  · exact absurd h hnew

/-- Each token that a call adds is stored in one of its states. -/
theorem exists_stores (h : Returns strtod ops t.started out) {k : ℕ}
    (hk : t.tokens.tokens.length ≤ k) (htoken : out.2.tokens.tokens[k]? = some token) :
    ∃ s, Stores strtod ops t s token ∧ s.tokens.tokens.length = k := by
  obtain ⟨last, hreach, hends⟩ := h
  have hrounds : last.tokens.tokens[k]? = some token →
      ∃ s, Stores strtod ops t s token ∧ s.tokens.tokens.length = k := by
    clear hends
    induction hreach with
    | refl =>
      intro hold
      have hlt := (List.getElem?_eq_some_iff.1 hold).1
      exact absurd hk (Nat.not_le.2 hlt)
    | @tail s s' hreach hround ih =>
      intro hs'
      by_cases hold : s.tokens.tokens[k]? = some token
      · exact ih hold
      · cases hround with
        | skip => exact absurd hs' hold
        | take htakes hpos =>
          obtain ⟨rfl, hroom, hlength⟩ := of_getElem?_add hs' hold
          exact ⟨s, ⟨hreach, .lexeme htakes hpos, hroom⟩, hlength⟩
  cases hends with
  | full hfull =>
    by_cases hold : last.tokens.tokens[k]? = some token
    · exact hrounds hold
    · obtain ⟨rfl, hroom, hlength⟩ := of_getElem?_add htoken hold
      exact ⟨last, ⟨hreach, .eof hfull, hroom⟩, hlength⟩
  | stuck => exact hrounds htoken

/-- Each place of the array is filled in one state. -/
theorem Stores.unique {token' : PolycallToken} (h : Stores strtod ops t s token)
    (h' : Stores strtod ops t s' token')
    (hlength : s.tokens.tokens.length = s'.tokens.tokens.length) : s = s' := by
  -- A state that comes after another has the token of that one too.
  have hafter : ∀ {a b : PolycallTokenizer} {x : PolycallToken}, Stores strtod ops t a x →
      (rounds strtod ops).Reaches a b → a.tokens.tokens.length = b.tokens.tokens.length →
      a = b := by
    intro a b x ha hreach hsame
    rcases hreach.cases_head with rfl | ⟨next, hround, hreach⟩
    · rfl
    · have hnext := (ha.emits.tokens_isPrefix ha.room hround).length_le
      have hb := (tokens_prefix_of_reaches hreach).length_le
      rw [List.length_append, List.length_singleton] at hnext
      omega
  rcases Machine.Reaches.total h.inCall h'.inCall with hreach | hreach
  · exact hafter h hreach hlength
  · exact (hafter h' hreach hlength.symm).symm

end Tokens

end LibPolyCall.Tokenizer
