import LibPolyCall.Tokenizer.Reference

/-!
# A tokenizer that is used again

`polycall_tokenizer_set_input` resets the scan and leaves the token array as it is, and
`polycall_tokenizer_process` appends to it. So the tokens of earlier inputs stay in front of those
of a new one, and take their room: `independent_iff` states when the array is that of a new
tokenizer all the same. The results and the positions never depend on what was tokenised before.
-/

namespace LibPolyCall.Tokenizer

open Scan Lexing

/-- What calls of `polycall_tokenizer_set_input` and `polycall_tokenizer_process` make of a
tokenizer. -/
inductive Reached (strtod : Text → UInt64) (fresh : PolycallTokenizer) : PolycallTokenizer → Prop
  | fresh : Reached strtod fresh fresh
  | setInput {t : PolycallTokenizer} (h : Reached strtod fresh t) (input : Option Text) :
      Reached strtod fresh (setInput t input).2
  | process {t t' : PolycallTokenizer} {result : Bool} (h : Reached strtod fresh t)
      {ops : Option TokenizerOperations} (hops : ∀ o, ops = some o → BuiltIn o)
      (hprocess : process strtod t ops = some (result, t')) : Reached strtod fresh t'

/-- Two tokenizers with the same size of the buffer and the same room for tokens. -/
def SameRoom (t t' : PolycallTokenizer) : Prop :=
  t'.input.size = t.input.size ∧ t'.tokens.capacity = t.tokens.capacity

/-- Tokenizers of one configuration have the same room. -/
theorem sameRoom_of_create {config : Option PolycallTokenizerConfig} {alloc alloc' : Allocations}
    {t t' : PolycallTokenizer} (h : create config alloc = .ok (some t))
    (h' : create config alloc' = .ok (some t')) : SameRoom t' t := by
  obtain ⟨htokens, hsize⟩ := create_eq h
  obtain ⟨htokens', hsize'⟩ := create_eq h'
  exact ⟨hsize.trans hsize'.symm, by rw [htokens, htokens']⟩

/-- The `EOF` token leaves the room. -/
theorem sameRoom_finish (t : PolycallTokenizer) : SameRoom t (finish t) :=
  ⟨rfl, PolycallTokenArray.capacity_add _ _⟩

/-- An input leaves the room. -/
theorem sameRoom_setInput (t : PolycallTokenizer) (input : Option Text) :
    SameRoom t (setInput t input).2 := by
  cases input with
  | none => exact ⟨rfl, rfl⟩
  | some input =>
    unfold setInput
    dsimp only
    split_ifs <;> exact ⟨rfl, rfl⟩

/-- The loop leaves the room. -/
theorem sameRoom_processLoop (strtod : Text → UInt64) {ops : TokenizerOperations} {rounds : ℕ}
    {t t' : PolycallTokenizer} {result : Bool}
    (h : processLoop strtod ops rounds t = some (result, t')) : SameRoom t t' := by
  induction rounds generalizing t with
  | zero =>
    cases h
    exact sameRoom_finish t
  | succ rounds ih =>
    rw [processLoop] at h
    split_ifs at h
    · obtain ⟨hsize, hcapacity⟩ := ih h
      exact ⟨hsize, hcapacity⟩
    · split at h
      · cases h
        exact ⟨rfl, rfl⟩
      · split_ifs at h
        obtain ⟨hsize, hcapacity⟩ := ih h
        exact ⟨hsize, hcapacity.trans (PolycallTokenArray.capacity_add _ _)⟩
    · cases h
      exact sameRoom_finish t

/-- No call changes the size of the buffer or the room for tokens. -/
theorem Reached.sameRoom {strtod : Text → UInt64} {fresh t : PolycallTokenizer}
    (h : Reached strtod fresh t) : SameRoom fresh t := by
  induction h with
  | fresh => exact ⟨rfl, rfl⟩
  | @setInput t _ input ih =>
    have hset := sameRoom_setInput t input
    exact ⟨hset.1.trans ih.1, hset.2.trans ih.2⟩
  | @process t t' result _ ops _ hprocess ih =>
    cases ops with
    | none =>
      cases hprocess
      exact ih
    | some ops =>
      have hloop := sameRoom_processLoop strtod hprocess
      exact ⟨hloop.1.trans ih.1, hloop.2.trans ih.2⟩

/-- The tokens that the scan of an input in a buffer of this size stores as far as they fit: those
of the lexemes, and the `EOF` token when the input fills the buffer and is consumed. -/
def scanTokens (strtod : Text → UInt64) (size : ℕ) (input : Text) (ls : List TokenLexeme) (r : Text)
    (q : Place) : List PolycallToken :=
  ls.map (tokenOf strtod) ++
    if r = [] ∧ input.length = size then [eofToken q.position] else []

/-- What a call that processes an accepted input returns and stores. -/
theorem process_tokens (strtod : Text → UInt64) {ops : TokenizerOperations} (hops : BuiltIn ops)
    {t : PolycallTokenizer} {input r : Text} (h : (setInput t (some input)).1 = true)
    {ls : List TokenLexeme} {q : Place} (hscan : (lexer ops).Scans .start input ls r q) :
    ∃ t', process strtod (setInput t (some input)).2 (some ops) =
        some (decide (r = [] ∧ input.length = t.input.size), t') ∧
      t'.position = q.position ∧
      t'.tokens = t.tokens.addAll (scanTokens strtod t.input.size input ls r q) := by
  have hprocess := process_of_scans strtod hops.local h hscan
  unfold scanTokens
  by_cases hfull : r = [] ∧ input.length = t.input.size
  · rw [if_pos hfull] at hprocess
    rw [decide_eq_true hfull, if_pos hfull]
    refine ⟨_, hprocess, rfl, ?_⟩
    exact t.tokens.add_addAll _ _
  · rw [if_neg hfull] at hprocess
    rw [decide_eq_false hfull, if_neg hfull, List.append_nil]
    exact ⟨_, hprocess, rfl, rfl⟩

/-- The input is accepted by both tokenizers, and after it the two agree: at the same positions once
it is set, then with the same result, the same tokens and the same positions. -/
def SameAsNew (strtod : Text → UInt64) (ops : TokenizerOperations) (t new : PolycallTokenizer)
    (input : Text) : Prop :=
  (setInput new (some input)).1 = true ∧
    (setInput t (some input)).2.position = (setInput new (some input)).2.position ∧
    ∃ result t' new', process strtod (setInput t (some input)).2 (some ops) = some (result, t') ∧
      process strtod (setInput new (some input)).2 (some ops) = some (result, new') ∧
      t'.tokens = new'.tokens ∧ t'.position = new'.position

/-- Only the tokens can differ. -/
theorem sameAsNew_iff_tokens (strtod : Text → UInt64) {ops : TokenizerOperations}
    (hops : BuiltIn ops) {t new : PolycallTokenizer} (hroom : SameRoom new t)
    (hnew : new.tokens.tokens = []) {input r : Text} (h : (setInput t (some input)).1 = true)
    {ls : List TokenLexeme} {q : Place} (hscan : (lexer ops).Scans .start input ls r q) :
    SameAsNew strtod ops t new input ↔
      (t.tokens.tokens ++ scanTokens strtod t.input.size input ls r q).take
          t.tokens.capacity.toNat =
        (scanTokens strtod t.input.size input ls r q).take t.tokens.capacity.toNat := by
  have hnew' : (setInput new (some input)).1 = true := by
    rw [setInput_iff] at h ⊢
    rw [← hroom.1]
    exact h
  obtain ⟨t', hprocess, hposition, htokens⟩ := process_tokens strtod hops h hscan
  obtain ⟨n', hprocessNew, hpositionNew, htokensNew⟩ := process_tokens strtod hops hnew' hscan
  rw [← hroom.1] at hprocessNew htokensNew
  have hstored : t'.tokens.tokens =
      (t.tokens.tokens ++ scanTokens strtod t.input.size input ls r q).take
        t.tokens.capacity.toNat := congrArg PolycallTokenArray.tokens htokens
  have hstoredNew : n'.tokens.tokens =
      (scanTokens strtod t.input.size input ls r q).take t.tokens.capacity.toNat := by
    rw [htokensNew, hroom.2]
    show (new.tokens.tokens ++ _).take _ = _
    rw [hnew, List.nil_append]
  -- The results and the positions agree in any case, and the tokens say the rest.
  rw [← hstored, ← hstoredNew]
  constructor
  · rintro ⟨-, -, result, t'', n'', hp, hpn, htok, -⟩
    rw [hprocess, Option.some_inj, Prod.mk.injEq] at hp
    rw [hprocessNew, Option.some_inj, Prod.mk.injEq] at hpn
    rw [hp.2, hpn.2, htok]
  · intro heq
    refine ⟨hnew', ?_, _, t', n', hprocess, hprocessNew, ?_, hposition.trans hpositionNew.symm⟩
    · rw [setInput_accepted h, setInput_accepted hnew']
      rfl
    · refine PolycallTokenArray.ext_tokens heq ?_
      rw [htokens, htokensNew]
      exact hroom.2

/-- An input does with a tokenizer what it does with a new one if and only if no token is stored
when the input is set, or the scan of the input gives at least as many tokens as there is room for
and starts with the stored tokens and its own start behind them, as far as there is room. -/
theorem independent_iff (strtod : Text → UInt64) {config : Option PolycallTokenizerConfig}
    {alloc alloc' : Allocations} {fresh new t : PolycallTokenizer}
    (hfresh : create config alloc = .ok (some fresh)) (hnew : create config alloc' = .ok (some new))
    (hreached : Reached strtod fresh t) {ops : TokenizerOperations} (hops : BuiltIn ops)
    {input : Text} (haccept : (setInput t (some input)).1 = true) :
    SameAsNew strtod ops t new input ↔
      t.tokens.tokens = [] ∨ ∀ ls r q, (lexer ops).Scans .start input ls r q →
        let tokens := scanTokens strtod t.input.size input ls r q
        t.tokens.capacity.toNat ≤ tokens.length ∧
          (t.tokens.tokens ++ tokens).take t.tokens.capacity.toNat =
            tokens.take t.tokens.capacity.toNat := by
  obtain ⟨ls, r, q, hscan⟩ := exists_scan hops.local input
  have hroom : SameRoom new t := by
    obtain ⟨hsize, hcapacity⟩ := hreached.sameRoom
    obtain ⟨hsame, hsame'⟩ := sameRoom_of_create hfresh hnew
    exact ⟨hsize.trans hsame, hcapacity.trans hsame'⟩
  rw [sameAsNew_iff_tokens strtod hops hroom (tokens_of_create hnew) haccept hscan]
  constructor
  · intro heq
    refine or_iff_not_imp_left.2 fun hne ls' r' q' hscan' => ?_
    obtain ⟨rfl, rfl, rfl⟩ := hscan.unique hscan'
    refine ⟨?_, heq⟩
    -- The stored tokens make the left side longer, so the right side must be cut off.
    have hlength := congrArg List.length heq
    rw [List.length_take, List.length_take, List.length_append] at hlength
    have hpos : 0 < t.tokens.tokens.length := List.length_pos_iff.2 hne
    omega
  · rintro (hnil | hall)
    · rw [hnil, List.nil_append]
    · exact (hall ls r q hscan).2

/-- A new tokenizer does with an input what a new one does. -/
theorem independent_iff_fresh :
    SameAsNew (fun _ => 0) matcherOperations smallTokenizer smallTokenizer (lit "ab") :=
  (@independent_iff (fun _ => 0) (some ⟨2, 1⟩) ⟨true, some [], true⟩ ⟨true, some [], true⟩
    smallTokenizer smallTokenizer smallTokenizer rfl rfl .fresh _ builtIn_matcherOperations
    (lit "ab") rfl).2 (.inl rfl)

/-- A tokenizer of the default configuration is given `a` and then `b`: it still holds the token of
`a`. -/
theorem earlier_token_kept : ∃ fresh t,
    create none ⟨true, some (List.replicate 4096 0), true⟩ = .ok (some fresh) ∧
      Reached (fun _ => 0) fresh t ∧ BuiltIn matcherOperations ∧
      (setInput t (some (lit "b"))).1 = true ∧
      ¬SameAsNew (fun _ => 0) matcherOperations t fresh (lit "b") := by
  let fresh : PolycallTokenizer :=
    ⟨⟨List.replicate 4096 0, 4096, 0⟩, ⟨1, 1⟩, ⟨.ready, none, 0⟩, .create 16⟩
  have hfirst : (lexer matcherOperations).Scans .start (lit "a") _ [] _ :=
    .take rfl rfl (.done _)
  have hsecond : (lexer matcherOperations).Scans .start (lit "b") _ [] _ :=
    .take rfl rfl (.done _)
  obtain ⟨t, hprocess, -, htokens⟩ := process_tokens (fun _ => 0) builtIn_matcherOperations
    (t := fresh) rfl hfirst
  have hreached : Reached (fun _ => 0) fresh t :=
    .process (.setInput .fresh _) (fun o ho => Option.some_inj.1 ho ▸ builtIn_matcherOperations)
      hprocess
  have haccept : (setInput t (some (lit "b"))).1 = true :=
    setInput_iff.2 ⟨by decide, by rw [hreached.sameRoom.1]; decide⟩
  refine ⟨fresh, t, rfl, hreached, builtIn_matcherOperations, haccept, fun hsame => ?_⟩
  have heq := (sameAsNew_iff_tokens (fun _ => 0) builtIn_matcherOperations hreached.sameRoom rfl
    haccept hsecond).1 hsame
  have hlength := congrArg List.length heq
  rw [htokens, hreached.sameRoom.1] at hlength
  revert hlength
  decide

end LibPolyCall.Tokenizer
