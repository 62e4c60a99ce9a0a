import LibPolyCall.Library.Runs
import LibPolyCall.Library.Stores
import LibPolyCall.Tokenizer.History

/-!
# The limits of the buffer

`polycall_tokenizer_create` takes its limits as the caller gives them, and
`polycall_tokenizer_set_input` stores an input and a terminator behind it (`inputStores`). The limit
of the tokens is divided by, and the length of an input is compared with the size of the buffer as
if there were no terminator. `staysInBounds_iff` says for which limits and inputs nothing is divided
by zero and everything is stored in the buffer.
-/

namespace LibPolyCall.Tokenizer

open Scan Runs
open Stores (block run_block index_of_mem_block)

/-- What a call of `polycall_tokenizer_set_input` stores in `input.buffer`: the bytes of the input,
and `'\0'` at the index `length`. -/
def inputStores (t : PolycallTokenizer) (input : Option Text) : List (ℕ × UInt8) :=
  match input with
  | none => []
  | some input =>
    if input.length = 0 then []
    else if t.input.size < input.length then []
    else block 0 input ++ [(input.length, nul)]

/-- The buffer after a call is the one before it after these stores. -/
theorem buffer_setInput (t : PolycallTokenizer) (input : Option Text) :
    byteAt (setInput t input).2.input.buffer =
      Stores.run (byteAt t.input.buffer) (inputStores t input) := by
  cases input with
  | none => rfl
  | some input =>
    unfold setInput inputStores
    dsimp only
    split_ifs with hempty hlong
    · rfl
    · rfl
    · funext i
      show (input ++ nul :: t.input.buffer.drop (input.length + 1)).getD i nul = _
      rw [Stores.run_append, Stores.run_cons, Stores.run_nil]
      dsimp only
      rcases lt_trichotomy i input.length with hlt | rfl | hgt
      · rw [List.getD_append _ _ _ _ hlt, Function.update_of_ne hlt.ne, run_block,
          if_neg (by omega), Nat.sub_zero, List.getD_eq_getElem _ _ hlt,
          List.getD_eq_getElem _ _ hlt]
      · rw [List.getD_append_right _ _ _ _ le_rfl, Nat.sub_self, List.getD_cons_zero,
          Function.update_self]
      · obtain ⟨k, rfl⟩ := Nat.exists_eq_add_of_lt hgt
        have hindex : input.length + k + 1 - input.length = k + 1 := by omega
        rw [List.getD_append_right _ _ _ _ hgt.le, hindex, List.getD_cons_succ,
          Function.update_of_ne hgt.ne', run_block, if_neg (by omega), Nat.sub_zero,
          List.getD_eq_default _ _ hgt.le, byteAt, List.getD_eq_getElem?_getD,
          List.getD_eq_getElem?_getD, List.getElem?_drop]
        congr 2
        omega

/-- Stores come from an input that is accepted, and go no further than its terminator. -/
theorem index_le_of_mem_inputStores {t : PolycallTokenizer} {input : Option Text}
    {store : ℕ × UInt8} (h : store ∈ inputStores t input) :
    ∃ bytes, input = some bytes ∧ bytes ≠ [] ∧ bytes.length ≤ t.input.size ∧
      store.1 ≤ bytes.length := by
  cases input with
  | none => cases h
  | some input =>
    unfold inputStores at h
    dsimp only at h
    split_ifs at h with hempty hlong
    · cases h
    · cases h
    · refine ⟨input, rfl, fun hnil => hempty (List.length_eq_zero_iff.2 hnil), not_lt.1 hlong, ?_⟩
      rcases List.mem_append.1 h with h | h
      · have hbound := (index_of_mem_block h).2
        omega
      · rw [List.mem_singleton.1 h]

/-- The terminator of an input that is accepted. -/
theorem terminator_mem_inputStores {t : PolycallTokenizer} {input : Text} (hne : input ≠ [])
    (hfits : input.length ≤ t.input.size) : (input.length, nul) ∈ inputStores t (some input) := by
  unfold inputStores
  dsimp only
  rw [if_neg (fun hzero => hne (List.length_eq_zero_iff.1 hzero)), if_neg (not_lt.2 hfits)]
  exact List.mem_append_right _ List.mem_cons_self

/-- A refused input leaves the buffer and the position as they were. -/
theorem input_of_refused {t : PolycallTokenizer} {input : Option Text}
    (h : (setInput t input).1 = false) : (setInput t input).2.input = t.input := by
  cases input with
  | none => rfl
  | some input =>
    unfold setInput at h ⊢
    dsimp only at h ⊢
    split_ifs at h ⊢ <;> rfl

/-! ## Runs -/

/-- A call of `polycall_tokenizer_set_input`, as a step. -/
def inputStep (t : PolycallTokenizer) (input : Option Text) : PolycallTokenizer × Bool :=
  ((setInput t input).2, (setInput t input).1)

/-- The size of the buffer that a configuration asks for. -/
def bufferLimit (config : Option PolycallTokenizerConfig) : ℕ := (config.getD defaultConfig).buffer

/-- A tokenizer is created without a division by zero, every input of the run is stored in the
buffer that was allocated, and a refused one leaves the buffer and the scan position unchanged. -/
structure StaysInBounds (config : Option PolycallTokenizerConfig) (alloc : Allocations)
    (inputs : List (Option Text)) : Prop where
  divides : create config alloc ≠ .error .divisionByZero
  stores : ∀ t, create config alloc = .ok (some t) → ∀ m ∈ moves inputStep t inputs,
    ∀ store ∈ inputStores m.1 m.2, store.1 < bufferLimit config
  keeps : ∀ t, create config alloc = .ok (some t) → ∀ m ∈ moves inputStep t inputs,
    (setInput m.1 m.2).1 = false → (setInput m.1 m.2).2.input = m.1.input

/-- As far as the allocations succeed, the limit of the tokens is not zero, and no input is as long
as the buffer. -/
structure WithinLimits (config : Option PolycallTokenizerConfig) (alloc : Allocations)
    (inputs : List (Option Text)) : Prop where
  token : alloc.tokenizer = true → alloc.buffer.isSome = true →
    (config.getD defaultConfig).token ≠ 0
  inputs : alloc.tokenizer = true → alloc.buffer.isSome = true → alloc.tokens = true →
    ∀ input, some input ∈ inputs → input ≠ [] → input.length ≠ bufferLimit config

/-- When the division traps. -/
theorem create_eq_error_iff {config : Option PolycallTokenizerConfig} {alloc : Allocations} :
    create config alloc = .error .divisionByZero ↔
      alloc.tokenizer = true ∧ alloc.buffer.isSome = true ∧
        (config.getD defaultConfig).token = 0 := by
  unfold create
  dsimp only
  cases alloc.buffer with
  | none => simp
  | some memory => split_ifs <;> simp_all

/-- When a tokenizer is created. -/
theorem exists_create_iff {config : Option PolycallTokenizerConfig} {alloc : Allocations} :
    (∃ t, create config alloc = .ok (some t)) ↔
      alloc.tokenizer = true ∧ alloc.buffer.isSome = true ∧
        (config.getD defaultConfig).token ≠ 0 ∧ alloc.tokens = true := by
  unfold create
  dsimp only
  cases alloc.buffer with
  | none => simp
  | some memory => split_ifs <;> simp_all

/-- The buffer keeps its size in a run. -/
theorem size_of_mem_moves {config : Option PolycallTokenizerConfig} {alloc : Allocations}
    {t : PolycallTokenizer} (hcreate : create config alloc = .ok (some t))
    {inputs : List (Option Text)} {m : PolycallTokenizer × Option Text}
    (hm : m ∈ moves inputStep t inputs) : m.1.input.size = bufferLimit config := by
  have hstep : ∀ (s : PolycallTokenizer) (input : Option Text),
      s.input.size = bufferLimit config → (inputStep s input).1.input.size = bufferLimit config :=
    fun s input hs => (sameRoom_setInput s input).1.trans hs
  exact (final_of_step hstep t inputs (create_eq hcreate).2).1 m hm

/-- What stays in bounds keeps clear of the two edges. -/
theorem StaysInBounds.withinLimits {config : Option PolycallTokenizerConfig} {alloc : Allocations}
    {inputs : List (Option Text)} (h : StaysInBounds config alloc inputs) :
    WithinLimits config alloc inputs := by
  have htoken : alloc.tokenizer = true → alloc.buffer.isSome = true →
      (config.getD defaultConfig).token ≠ 0 := fun htokenizer hbuffer hzero =>
    h.divides (create_eq_error_iff.2 ⟨htokenizer, hbuffer, hzero⟩)
  refine ⟨htoken, fun htokenizer hbuffer htokens input hinput hne hfull => ?_⟩
  obtain ⟨t, hcreate⟩ := exists_create_iff.2
    ⟨htokenizer, hbuffer, htoken htokenizer hbuffer, htokens⟩
  obtain ⟨s, hm⟩ : ∃ s, (s, some input) ∈ moves inputStep t inputs := exists_mem_moves hinput
  have hsize := size_of_mem_moves hcreate hm
  have hstore := h.stores t hcreate _ hm _
    (terminator_mem_inputStores hne (hfull.le.trans hsize.ge))
  exact hstore.ne hfull

/-- Nothing is divided by zero, and every byte of every run of inputs is stored in the buffer, if
and only if the limits and the inputs keep clear of the two edges. -/
theorem staysInBounds_iff (config : Option PolycallTokenizerConfig) (alloc : Allocations)
    (inputs : List (Option Text)) :
    StaysInBounds config alloc inputs ↔ WithinLimits config alloc inputs := by
  refine ⟨StaysInBounds.withinLimits, fun h => ⟨fun herror => ?_, fun t hcreate m hm store hstore =>
    ?_, fun t _ m _ hrefused => input_of_refused hrefused⟩⟩
  · obtain ⟨htokenizer, hbuffer, hzero⟩ := create_eq_error_iff.1 herror
    exact h.token htokenizer hbuffer hzero
  · obtain ⟨htokenizer, hbuffer, -, htokens⟩ := exists_create_iff.1 ⟨t, hcreate⟩
    obtain ⟨input, heq, hne, hfits, hindex⟩ := index_le_of_mem_inputStores hstore
    have hinput : some input ∈ inputs := heq ▸ snd_mem_of_mem_moves hm
    have hshort := h.inputs htokenizer hbuffer htokens input hinput hne
    have hsize := size_of_mem_moves hcreate hm
    omega

/-- The two edges: an input of 4096 bytes in a buffer of the default size, whose terminator goes
behind the buffer, and a limit of zero for the tokens. -/
theorem full_buffer_overflows :
    ¬StaysInBounds none ⟨true, some (List.replicate 4096 0), true⟩
        [some (List.replicate 4096 97)] ∧
      ¬StaysInBounds (some ⟨4096, 0⟩) ⟨true, some (List.replicate 4096 0), true⟩ [] := by
  constructor
  · intro h
    have hne : List.replicate 4096 (97 : UInt8) ≠ [] := List.cons_ne_nil 97 _
    exact h.withinLimits.inputs rfl rfl rfl _ List.mem_cons_self hne List.length_replicate
  · intro h
    exact h.withinLimits.token rfl rfl rfl

end LibPolyCall.Tokenizer
