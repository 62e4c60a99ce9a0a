import LibPolyCall.Library.Heap
import LibPolyCall.Tokenizer.History

/-!
# The memory of a tokenizer

The functions of `polycall_tokenizer.c` with what they allocate and free. The value of an identifier
or a string is a pointer into the input buffer, but `polycall_token_destroy_array` frees it, so
that `polycall_tokenizer_destroy` is defined exactly while no token with such a value is stored
(`destroy_run_iff`). All the other functions are defined, and then everything is freed.
-/

namespace LibPolyCall.Tokenizer

open Scan Heap

/-- The pointer of a value of type `VALUE_STRING` or `VALUE_IDENTIFIER`. -/
def PolycallValue.pointer? (place : ℕ → Pointer) : PolycallValue → Option Pointer
  | .string data _ => some (place data)
  | .identifier data _ => some (place data)
  | _ => Option.none

/-- The value is a string or an identifier. -/
def PolycallValue.isText : PolycallValue → Bool
  | .string _ _ => true
  | .identifier _ _ => true
  | _ => false

/-- `polycall_token_destroy_array`: the values by `polycall_value_destroy`, then the two blocks of
the array. -/
def destroyArray (place : ℕ → Pointer) (array tokens : Pointer) (stored : List PolycallToken) :
    Mem Unit := do
  freeAll (stored.map fun token => token.value.pointer? place)
  free (some tokens)
  free (some array)

/-- A `PolycallTokenizer` with its blocks. -/
structure PlacedTokenizer where
  tokenizer : PolycallTokenizer
  /-- The structure itself. -/
  self : Pointer
  /-- `input.buffer`. -/
  buffer : Pointer
  /-- `tokens`, and its own `tokens`. -/
  array : Pointer
  tokens : Pointer
  /-- `state.error_message`. -/
  errorMessage : Option Pointer

namespace PlacedTokenizer

/-- `polycall_tokenizer_create`. -/
def create (config : Option PolycallTokenizerConfig) (alloc : Allocations) :
    Mem (Except Trap (Option PlacedTokenizer)) :=
  match Tokenizer.create config alloc with
  | .error trap => pure (.error trap)
  | .ok (some tokenizer) => do
    let self ← malloc
    let buffer ← malloc
    let array ← malloc
    let tokens ← malloc
    pure (.ok (some ⟨tokenizer, self, buffer, array, tokens, none⟩))
  | .ok none =>
    if alloc.tokenizer then do
      let self ← malloc
      if alloc.buffer.isSome then do
        let buffer ← malloc
        free (some buffer)
        free (some self)
      else free (some self)
      pure (.ok none)
    else pure (.ok none)

variable (p : PlacedTokenizer)

/-- `set_error_state`, with a `strdup` that succeeds. -/
def setErrorState (message : Text) : Mem PlacedTokenizer := do
  free p.errorMessage
  let pointer ← malloc
  pure { p with
    tokenizer := Tokenizer.setErrorState p.tokenizer message
    errorMessage := some pointer }

/-- `reset_state`. -/
def resetState : Mem PlacedTokenizer := do
  free p.errorMessage
  pure { p with tokenizer := Tokenizer.resetState p.tokenizer, errorMessage := none }

/-- `polycall_tokenizer_set_input`. -/
def setInput (input : Option Text) : Mem PlacedTokenizer :=
  match input with
  | none => pure p
  | some input =>
    if input.length = 0 then pure p
    else if p.tokenizer.input.size < input.length then p.setErrorState (lit "Buffer overflow")
    else
      let buffer := input ++ nul :: p.tokenizer.input.buffer.drop (input.length + 1)
      resetState { p with
        tokenizer := { p.tokenizer with input := ⟨buffer, p.tokenizer.input.size, 0⟩ } }

/-- `polycall_tokenizer_process`, if it returns. -/
def process (strtod : Text → UInt64) (ops : Option TokenizerOperations) :
    Option (Mem PlacedTokenizer) :=
  (Tokenizer.process strtod p.tokenizer ops).map fun result =>
    if ops.isSome && !result.1 then do
      -- The loop has ended in `set_error_state`.
      free p.errorMessage
      let pointer ← malloc
      pure { p with tokenizer := result.2, errorMessage := some pointer }
    else pure { p with tokenizer := result.2 }

/-- `polycall_tokenizer_reset`. -/
def reset : Mem PlacedTokenizer := do
  let p ← p.resetState
  let array := p.tokenizer.tokens
  pure { p with
    tokenizer := { p.tokenizer with tokens := ⟨[], array.capacity, Nat.zero_le _⟩ } }

/-- Where the values of the tokens point: into the buffer. -/
def place (data : ℕ) : Pointer := ⟨p.buffer.block, p.buffer.offset + data⟩

/-- `polycall_tokenizer_destroy`. -/
def destroy : Mem Unit := do
  free (some p.buffer)
  destroyArray p.place p.array p.tokens p.tokenizer.tokens.tokens
  free p.errorMessage
  free (some p.self)

end PlacedTokenizer

/-- What calls on a tokenizer lead to, each after the calls before it have returned: the tokenizer
and the heap, or nothing where a call was undefined. -/
inductive PlacedReached (strtod : Text → UInt64) (fresh : PlacedTokenizer × Heap) :
    Option (PlacedTokenizer × Heap) → Prop
  | fresh : PlacedReached strtod fresh (some fresh)
  | setInput {p : PlacedTokenizer} {h : Heap} (hreached : PlacedReached strtod fresh (some (p, h)))
      (input : Option Text) : PlacedReached strtod fresh ((p.setInput input).run h)
  | process {p : PlacedTokenizer} {h : Heap} (hreached : PlacedReached strtod fresh (some (p, h)))
      {ops : Option TokenizerOperations} {call : Mem PlacedTokenizer}
      (hcall : p.process strtod ops = some call) : PlacedReached strtod fresh (call.run h)
  | reset {p : PlacedTokenizer} {h : Heap} (hreached : PlacedReached strtod fresh (some (p, h))) :
      PlacedReached strtod fresh (p.reset.run h)

namespace PlacedTokenizer

variable {p : PlacedTokenizer} {h : Heap} {others : Finset ℕ}

/-- The blocks of a tokenizer. -/
def own (p : PlacedTokenizer) : List Pointer :=
  p.errorMessage.toList ++ [p.self, p.buffer, p.array, p.tokens]

/-! ## What the functions leave -/

/-- A tokenizer that is created owns the blocks allocated for it. -/
theorem create_run (h : Heap) {config : Option PolycallTokenizerConfig} {alloc : Allocations}
    {t : PolycallTokenizer} (hcreate : Tokenizer.create config alloc = .ok (some t)) :
    ∃ p h', (create config alloc).run h = some (.ok (some p), h') ∧ Owns p.own h.live h' ∧
      p.tokenizer = t := by
  obtain ⟨self, h₁, hself, howns⟩ := (owns_nil h).malloc
  obtain ⟨buffer, h₂, hbuffer, howns⟩ := howns.malloc
  obtain ⟨array, h₃, harray, howns⟩ := howns.malloc
  obtain ⟨tokens, h₄, htokens, howns⟩ := howns.malloc
  refine ⟨⟨t, self, buffer, array, tokens, none⟩, h₄, ?_,
    howns.perm (List.reverse_perm [self, buffer, array, tokens]), rfl⟩
  rw [create, hcreate]
  exact bind_eq_some.2 ⟨self, h₁, hself, bind_eq_some.2 ⟨buffer, h₂, hbuffer,
    bind_eq_some.2 ⟨array, h₃, harray, bind_eq_some.2 ⟨tokens, h₄, htokens, rfl⟩⟩⟩⟩

/-- A tokenizer that cannot be created leaves nothing allocated. -/
theorem create_run_none (h : Heap) {config : Option PolycallTokenizerConfig} {alloc : Allocations}
    (hcreate : Tokenizer.create config alloc = .ok none) :
    ∃ h', (create config alloc).run h = some (.ok none, h') ∧ h'.live = h.live := by
  rw [create, hcreate]
  dsimp only
  by_cases htokenizer : alloc.tokenizer = true
  · rw [if_pos htokenizer]
    obtain ⟨self, h₁, hself, howns⟩ := (owns_nil h).malloc
    by_cases hbuffer : alloc.buffer.isSome = true
    · simp only [if_pos hbuffer]
      obtain ⟨buffer, h₂, hmalloc, howns₂⟩ := howns.malloc
      obtain ⟨h₃, hfree, howns₃⟩ := Owns.free (p := some buffer) howns₂
      obtain ⟨h₄, hfree', howns₄⟩ := Owns.free (p := some self) howns₃
      refine ⟨h₄, ?_, howns₄.live_eq⟩
      exact bind_eq_some.2 ⟨self, h₁, hself, bind_eq_some.2 ⟨buffer, h₂, hmalloc,
        bind_eq_some.2 ⟨(), h₃, hfree, bind_eq_some.2 ⟨(), h₄, hfree', rfl⟩⟩⟩⟩
    · simp only [if_neg hbuffer]
      obtain ⟨h₂, hfree, howns₂⟩ := Owns.free (p := some self) howns
      exact ⟨h₂, bind_eq_some.2 ⟨self, h₁, hself, bind_eq_some.2 ⟨(), h₂, hfree, rfl⟩⟩,
        howns₂.live_eq⟩
  · rw [if_neg htokenizer]
    exact ⟨h, rfl, rfl⟩

/-- Setting an error frees the message before and keeps the blocks owned. -/
theorem setErrorState_run (hplaced : Owns p.own others h) (message : Text) :
    ∃ p' h', (p.setErrorState message).run h = some (p', h') ∧ Owns p'.own others h' ∧
      p'.tokenizer = Tokenizer.setErrorState p.tokenizer message := by
  obtain ⟨h₁, hfree, howns⟩ := hplaced.free
  obtain ⟨q, h₂, hmalloc, howns⟩ := howns.malloc
  exact ⟨_, h₂, bind_eq_some.2 ⟨(), h₁, hfree, bind_eq_some.2 ⟨q, h₂, hmalloc, rfl⟩⟩, howns, rfl⟩

/-- Resetting the state frees the message and keeps the blocks owned. -/
theorem resetState_run (hplaced : Owns p.own others h) :
    ∃ p' h', p.resetState.run h = some (p', h') ∧ Owns p'.own others h' ∧
      p'.tokenizer = Tokenizer.resetState p.tokenizer := by
  obtain ⟨h₁, hfree, howns⟩ := hplaced.free
  exact ⟨_, h₁, bind_eq_some.2 ⟨(), h₁, hfree, rfl⟩, howns, rfl⟩

/-- An input keeps the blocks owned. -/
theorem setInput_run (hplaced : Owns p.own others h) (input : Option Text) :
    ∃ p' h', (p.setInput input).run h = some (p', h') ∧ Owns p'.own others h' ∧
      p'.tokenizer = (Tokenizer.setInput p.tokenizer input).2 := by
  cases input with
  | none => exact ⟨p, h, rfl, hplaced, rfl⟩
  | some input =>
    rw [setInput, Tokenizer.setInput]
    by_cases hempty : input.length = 0
    · rw [if_pos hempty, if_pos hempty]
      exact ⟨p, h, rfl, hplaced, rfl⟩
    · rw [if_neg hempty, if_neg hempty]
      by_cases hlong : p.tokenizer.input.size < input.length
      · rw [if_pos hlong, if_pos hlong]
        exact setErrorState_run hplaced _
      · rw [if_neg hlong, if_neg hlong]
        exact resetState_run (p := { p with tokenizer := _ }) hplaced

/-- A call of `polycall_tokenizer_process` keeps the blocks owned. -/
theorem process_run (hplaced : Owns p.own others h) {strtod : Text → UInt64}
    {ops : Option TokenizerOperations} {call : Mem PlacedTokenizer}
    (hcall : p.process strtod ops = some call) :
    ∃ p' h' result, call.run h = some (p', h') ∧ Owns p'.own others h' ∧
      Tokenizer.process strtod p.tokenizer ops = some (result, p'.tokenizer) := by
  rw [process, Option.map_eq_some_iff] at hcall
  obtain ⟨⟨result, t⟩, hprocess, rfl⟩ := hcall
  dsimp only
  split
  · obtain ⟨h₁, hfree, howns⟩ := hplaced.free
    obtain ⟨q, h₂, hmalloc, howns⟩ := howns.malloc
    exact ⟨_, h₂, result, bind_eq_some.2 ⟨(), h₁, hfree, bind_eq_some.2 ⟨q, h₂, hmalloc, rfl⟩⟩,
      howns, hprocess⟩
  · exact ⟨_, h, result, rfl, hplaced, hprocess⟩

/-- A reset keeps the blocks owned. -/
theorem reset_run (hplaced : Owns p.own others h) :
    ∃ p' h', p.reset.run h = some (p', h') ∧ Owns p'.own others h' := by
  obtain ⟨p', h', hreset, howns, -⟩ := resetState_run hplaced
  exact ⟨_, h', bind_eq_some.2 ⟨p', h', hreset, rfl⟩, howns⟩

/-! ## Destroying -/

/-- Only texts are freed as pointers. -/
theorem pointer?_eq_none_iff (place : ℕ → Pointer) {value : PolycallValue} :
    value.pointer? place = none ↔ value.isText = false := by
  cases value with
  | string data length => exact ⟨fun h => (by cases h), fun h => (by cases h)⟩
  | identifier data length => exact ⟨fun h => (by cases h), fun h => (by cases h)⟩
  | _ => exact ⟨fun _ => rfl, fun _ => rfl⟩

/-- The pointers of the values of the stored tokens. -/
def values (p : PlacedTokenizer) : List (Option Pointer) :=
  p.tokenizer.tokens.tokens.map fun token => token.value.pointer? p.place

/-- The pointers that `polycall_tokenizer_destroy` frees, in order. -/
def destroyed (p : PlacedTokenizer) : List (Option Pointer) :=
  some p.buffer :: p.values ++ [some p.tokens, some p.array, p.errorMessage, some p.self]

/-- `polycall_tokenizer_destroy` frees these pointers in turn. -/
theorem destroy_eq (p : PlacedTokenizer) : p.destroy = freeAll p.destroyed := by
  rw [destroyed, List.cons_append, freeAll_cons, freeAll_append, values, destroy, destroyArray]
  simp only [freeAll, bind_assoc, bind_pure_unit]

/-- The pointers of the values are into the buffer. -/
theorem block_of_pointer? {q : Pointer} {value : PolycallValue}
    (h : value.pointer? p.place = some q) : q.block = p.buffer.block := by
  cases value with
  | string data length =>
    cases h
    rfl
  | identifier data length =>
    cases h
    rfl
  | _ => cases h

/-- Those that are not `NULL`, in order. -/
theorem reduceOption_destroyed (p : PlacedTokenizer) :
    p.destroyed.reduceOption = p.buffer :: (p.values.reduceOption ++
      p.tokens :: p.array :: (p.errorMessage.toList ++ [p.self])) := by
  rw [destroyed, List.cons_append, List.reduceOption_cons_of_some, List.reduceOption_append,
    List.reduceOption_cons_of_some, List.reduceOption_cons_of_some]
  cases p.errorMessage with
  | none => rfl
  | some message => rfl

/-- Where a value is freed, it is freed after the buffer that it points into. -/
theorem isText_of_destroy (hdestroy : ∃ h', p.destroy.run h = some ((), h')) :
    ∀ token ∈ p.tokenizer.tokens.tokens, token.value.isText = false := by
  intro token htoken
  rw [destroy_eq, freeAll_iff, reduceOption_destroyed] at hdestroy
  obtain ⟨-, hnodup⟩ := hdestroy
  rw [List.map_cons, List.nodup_cons] at hnodup
  refine (pointer?_eq_none_iff p.place).1 (Option.eq_none_iff_forall_ne_some.2 fun q hq => ?_)
  refine hnodup.1 ?_
  have hmem : q ∈ p.values.reduceOption :=
    List.reduceOption_mem_iff.2 (List.mem_map.2 ⟨token, htoken, hq⟩)
  rw [← block_of_pointer? hq]
  exact List.mem_map_of_mem (List.mem_append_left _ hmem)

/-- Where there is none, everything is freed. -/
theorem destroy_run (hplaced : Owns p.own others h)
    (hvalues : ∀ token ∈ p.tokenizer.tokens.tokens, token.value.isText = false) :
    ∃ h', p.destroy.run h = some ((), h') ∧ h'.live = others := by
  have hnone : p.values.reduceOption = [] := by
    rw [List.reduceOption_eq_nil_iff]
    refine ⟨_, List.eq_replicate_of_mem fun value hvalue => ?_⟩
    obtain ⟨token, htoken, rfl⟩ := List.mem_map.1 hvalue
    exact (pointer?_eq_none_iff p.place).2 (hvalues token htoken)
  have hperm : p.own.Perm (p.destroyed.reduceOption ++ []) := by
    rw [reduceOption_destroyed, hnone, own, List.perm_iff_count]
    intro q
    simp only [List.count_append, List.count_cons, List.count_nil]
    omega
  obtain ⟨h', hfree, howns⟩ := (hplaced.perm hperm).freeAll
  rw [destroy_eq]
  exact ⟨h', hfree, howns.live_eq⟩

end PlacedTokenizer

open PlacedTokenizer

/-- No call on a tokenizer is undefined, and what is allocated for it stays its own. -/
theorem PlacedReached.owns {strtod : Text → UInt64} {fresh : PlacedTokenizer × Heap}
    {others : Finset ℕ} {result : Option (PlacedTokenizer × Heap)}
    (hreached : PlacedReached strtod fresh result) (hfresh : Owns fresh.1.own others fresh.2) :
    ∃ p h, result = some (p, h) ∧ Owns p.own others h := by
  induction hreached with
  | fresh => exact ⟨fresh.1, fresh.2, rfl, hfresh⟩
  | @setInput p h _ input ih =>
    obtain ⟨_, _, heq, howns⟩ := ih
    cases heq
    obtain ⟨p', h', hrun, howns', -⟩ := setInput_run howns input
    exact ⟨p', h', hrun, howns'⟩
  | @process p h _ ops call hcall ih =>
    obtain ⟨_, _, heq, howns⟩ := ih
    cases heq
    obtain ⟨p', h', result, hrun, howns', -⟩ := process_run howns hcall
    exact ⟨p', h', hrun, howns'⟩
  | @reset p h _ ih =>
    obtain ⟨_, _, heq, howns⟩ := ih
    cases heq
    exact reset_run howns

/-- After any calls on a tokenizer, none of which is undefined, `polycall_tokenizer_destroy` is
defined just if no token is stored whose value is an identifier or a string. Then it frees
everything that was allocated for the tokenizer. -/
theorem destroy_run_iff (strtod : Text → UInt64) {config : Option PolycallTokenizerConfig}
    {alloc : Allocations} {heap start : Heap} {fresh : PlacedTokenizer}
    (hcreate : (PlacedTokenizer.create config alloc).run heap = some (.ok (some fresh), start))
    {result : Option (PlacedTokenizer × Heap)}
    (hreached : PlacedReached strtod (fresh, start) result) :
    ∃ p h, result = some (p, h) ∧
      ((∃ h', p.destroy.run h = some ((), h')) ↔
        ∀ token ∈ p.tokenizer.tokens.tokens, token.value.isText = false) ∧
      ∀ h', p.destroy.run h = some ((), h') → h'.live = heap.live := by
  have hfresh : Owns fresh.own heap.live start := by
    cases ht : Tokenizer.create config alloc with
    | error trap =>
      rw [PlacedTokenizer.create, ht] at hcreate
      cases hcreate
    | ok t =>
      cases t with
      | none =>
        obtain ⟨h', hrun, -⟩ := create_run_none heap ht
        rw [hcreate] at hrun
        cases hrun
      | some t =>
        obtain ⟨p, h', hrun, howns, -⟩ := create_run heap ht
        rw [hcreate] at hrun
        cases hrun
        exact howns
  obtain ⟨p, h, rfl, howns⟩ := hreached.owns hfresh
  refine ⟨p, h, rfl, ⟨isText_of_destroy, fun hvalues => ?_⟩, fun h' hdestroy => ?_⟩
  · obtain ⟨h', hdestroy, -⟩ := destroy_run howns hvalues
    exact ⟨h', hdestroy⟩
  · obtain ⟨h'', hdestroy', hlive⟩ := destroy_run howns (isText_of_destroy ⟨h', hdestroy⟩)
    rw [hdestroy] at hdestroy'
    cases hdestroy'
    exact hlive

/-- A tokenizer that has met an identifier cannot be destroyed. -/
theorem destroy_run_iff_identifier : ∃ heap fresh start p h,
    (PlacedTokenizer.create (some ⟨2, 1⟩) ⟨true, some [], true⟩).run heap =
        some (.ok (some fresh), start) ∧
      PlacedReached (fun _ => 0) (fresh, start) (some (p, h)) ∧
      ¬∃ h', p.destroy.run h = some ((), h') := by
  let heap : Heap := ⟨∅, 0, fun b hb => absurd hb (Finset.notMem_empty b)⟩
  have hsmall : Tokenizer.create (some ⟨2, 1⟩) ⟨true, some [], true⟩ = .ok (some smallTokenizer) :=
    rfl
  obtain ⟨fresh, start, hcreate, howns, hfresh⟩ := create_run heap hsmall
  obtain ⟨p₁, h₁, hset, howns₁, hset₁⟩ := setInput_run howns (some (lit "ab"))
  have hreached₁ : PlacedReached (fun _ => 0) (fresh, start) (some (p₁, h₁)) := by
    rw [← hset]
    exact .setInput .fresh _
  have hprocess : ∃ t token, Tokenizer.process (fun _ => 0) p₁.tokenizer (some matcherOperations) =
      some (true, t) ∧ token ∈ t.tokens.tokens ∧ token.value.isText = true := by
    rw [hset₁, hfresh]
    exact ⟨_, _, rfl, List.mem_cons_self, rfl⟩
  obtain ⟨t, token, hprocess, htoken, htext⟩ := hprocess
  have hcall : p₁.process (fun _ => 0) (some matcherOperations) =
      some (pure { p₁ with tokenizer := t }) := by
    rw [PlacedTokenizer.process, hprocess]
    rfl
  have hreached : PlacedReached (fun _ => 0) (fresh, start)
      (some ({ p₁ with tokenizer := t }, h₁)) := .process hreached₁ hcall
  obtain ⟨p, h, heq, hiff, -⟩ := destroy_run_iff (fun _ => 0) hcreate hreached
  cases heq
  refine ⟨heap, fresh, start, _, _, hcreate, hreached, fun hdestroy => ?_⟩
  have hnone := hiff.1 hdestroy token htoken
  rw [htext] at hnone
  cases hnone

/-! ## Arrays that share values -/

/-- A `PolycallTokenArray` with its blocks. -/
structure PlacedArray where
  stored : PolycallTokenArray
  array : Pointer
  tokens : Pointer

namespace PlacedArray

variable (place : ℕ → Pointer)

/-- `polycall_token_destroy_array`. -/
def destroy (a : PlacedArray) : Mem Unit := destroyArray place a.array a.tokens a.stored.tokens

/-- `polycall_token_filter`, where the allocations succeed. The result has as much room as the array
that is read, so that it never grows. -/
def filter (pred : PolycallToken → Bool) (a : PlacedArray) : Mem PlacedArray := do
  let array ← malloc
  let tokens ← malloc
  let result := a.stored.tokens.foldl
    (fun result token => if pred token then result.add token else result)
    (PolycallTokenArray.create a.stored.capacity)
  pure ⟨result, array, tokens⟩

/-- The blocks of an array and of its values. -/
def own (a : PlacedArray) : List (Option Pointer) :=
  (a.stored.tokens.map fun token => token.value.pointer? place) ++ [some a.tokens, some a.array]

variable {place}

/-- With room for all tokens, those that the predicate keeps are added in order. -/
theorem foldl_add {pred : PolycallToken → Bool} : ∀ (tokens : List PolycallToken)
    (result : PolycallTokenArray), result.tokens.length + tokens.length ≤ result.capacity.toNat →
      (tokens.foldl (fun result token => if pred token then result.add token else result)
        result).tokens = result.tokens ++ tokens.filter pred
  | [], result, _ => (List.append_nil _).symm
  | token :: tokens, result, hroom => by
    rw [List.length_cons] at hroom
    rw [List.foldl_cons]
    cases hpred : pred token with
    | true =>
      have htokens : (result.add token).tokens = result.tokens ++ [token] := by
        rw [result.tokens_add, if_pos (by omega)]
      rw [if_pos rfl, foldl_add tokens, htokens, List.filter_cons_of_pos hpred, List.append_assoc,
        List.singleton_append]
      rw [htokens, result.capacity_add, List.length_append, List.length_singleton]
      omega
    | false =>
      rw [if_neg Bool.false_ne_true, foldl_add tokens _ (by omega),
        List.filter_cons_of_neg (by rw [hpred]; exact Bool.false_ne_true)]

/-- `polycall_token_destroy_array` frees the values, and then the blocks of the array. -/
theorem destroy_eq (a : PlacedArray) : a.destroy place = freeAll (a.own place) := by
  rw [own, freeAll_append, destroy, destroyArray]
  simp only [freeAll, bind_pure_unit]

/-- Two arrays of which one has only values of the other can be destroyed both just if it has
none. -/
theorem destroy_both_iff {a r : PlacedArray} {others : Finset ℕ} {h : Heap}
    (howns : Owns (r.tokens :: r.array :: (a.own place).reduceOption) others h)
    (hsub : r.stored.tokens ⊆ a.stored.tokens) :
    (∃ h', (do r.destroy place; a.destroy place).run h = some ((), h')) ↔
      ∀ token ∈ r.stored.tokens, token.value.isText = false := by
  rw [destroy_eq, destroy_eq, ← freeAll_append, freeAll_iff, List.reduceOption_append]
  constructor
  · rintro ⟨-, hnodup⟩ token htoken
    refine (pointer?_eq_none_iff place).1 (Option.eq_none_iff_forall_ne_some.2 fun q hq => ?_)
    -- The pointer is freed with each of the two arrays.
    have hmem {b : PlacedArray} (hb : token ∈ b.stored.tokens) :
        q.block ∈ (b.own place).reduceOption.map Pointer.block := by
      refine List.mem_map_of_mem (List.reduceOption_mem_iff.2 ?_)
      exact List.mem_append_left _ (List.mem_map.2 ⟨token, hb, hq⟩)
    rw [List.map_append, List.nodup_append] at hnodup
    exact hnodup.2.2 _ (hmem htoken) _ (hmem (hsub htoken)) rfl
  · intro hvalues
    have hown : (r.own place).reduceOption = [r.tokens, r.array] := by
      have hnone : (r.stored.tokens.map fun token => token.value.pointer? place).reduceOption =
          [] := by
        rw [List.reduceOption_eq_nil_iff]
        refine ⟨_, List.eq_replicate_of_mem fun value hvalue => ?_⟩
        obtain ⟨token, htoken, rfl⟩ := List.mem_map.1 hvalue
        exact (pointer?_eq_none_iff place).2 (hvalues token htoken)
      rw [own, List.reduceOption_append, hnone]
      rfl
    rw [hown]
    exact howns.freeable

/-- After `polycall_token_filter` the two arrays can be destroyed just if no token that the
predicate keeps has an identifier or a string as its value: the result shares the values. -/
theorem destroy_filter_iff {a : PlacedArray} {others : Finset ℕ} {h : Heap}
    (howns : Owns (a.own place).reduceOption others h) (pred : PolycallToken → Bool) :
    ∃ r h₁, (a.filter pred).run h = some (r, h₁) ∧
      r.stored.tokens = a.stored.tokens.filter pred ∧
      ((∃ h', (do r.destroy place; a.destroy place).run h₁ = some ((), h')) ↔
        ∀ token ∈ a.stored.tokens, pred token = true → token.value.isText = false) := by
  obtain ⟨array, h₁, harray, howns₁⟩ := howns.malloc
  obtain ⟨tokens, h₂, htokens, howns₂⟩ := howns₁.malloc
  have hroom : a.stored.tokens.length ≤
      (PolycallTokenArray.create a.stored.capacity).capacity.toNat := by
    rw [PolycallTokenArray.create]
    split
    next hzero =>
      have hle := a.stored.count_le
      rw [hzero] at hle
      exact hle.trans (Nat.zero_le _)
    · exact a.stored.count_le
  have hfilter : (a.stored.tokens.foldl
      (fun result token => if pred token then result.add token else result)
      (PolycallTokenArray.create a.stored.capacity)).tokens = a.stored.tokens.filter pred :=
    foldl_add a.stored.tokens (PolycallTokenArray.create a.stored.capacity) (by
      rwa [PolycallTokenArray.create, List.length_nil, Nat.zero_add])
  refine ⟨⟨_, array, tokens⟩, h₂, bind_eq_some.2 ⟨array, h₁, harray,
    bind_eq_some.2 ⟨tokens, h₂, htokens, rfl⟩⟩, hfilter, ?_⟩
  have hboth := destroy_both_iff (r := ⟨_, array, tokens⟩) howns₂ (by
    rw [hfilter]
    exact List.filter_subset_self _)
  rw [hboth, hfilter]
  simp only [List.mem_filter, and_imp]

/-- An array of one string, with all of its tokens kept. -/
theorem destroy_filter_iff_string : ∃ a r h₁,
    (filter (fun _ => true) a).run ⟨{0, 1, 2}, 3, by decide⟩ = some (r, h₁) ∧
    ¬∃ h', (do r.destroy fun data => ⟨data, 0⟩; a.destroy fun data => ⟨data, 0⟩).run h₁ =
      some ((), h') := by
  let a : PlacedArray := ⟨⟨[⟨.string 2 5, .string, 0, 1, 1, 7⟩], 16, by decide⟩, ⟨0, 0⟩, ⟨1, 0⟩⟩
  have howns : Owns (a.own fun data => ⟨data, 0⟩).reduceOption ∅ ⟨{0, 1, 2}, 3, by decide⟩ := by
    refine ⟨⟨by decide, by decide⟩, fun b => ?_⟩
    show b ∈ ∅ ↔ b ∈ ({0, 1, 2} : Finset ℕ) ∧ b ∉ [2, 1, 0]
    simp only [Finset.notMem_empty, Finset.mem_insert, Finset.mem_singleton, List.mem_cons,
      List.not_mem_nil, or_false, not_or, false_iff, not_and]
    omega
  obtain ⟨r, h₁, hrun, -, hiff⟩ := destroy_filter_iff howns fun _ => true
  refine ⟨a, r, h₁, hrun, fun hdestroy => ?_⟩
  have hnone := hiff.1 hdestroy _ List.mem_cons_self rfl
  cases hnone

end PlacedArray

end LibPolyCall.Tokenizer
