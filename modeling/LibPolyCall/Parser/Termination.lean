import LibPolyCall.Parser.Rounds

/-!
# When parsing ends

A call of `parse_function` that consumes tokens consumes a function as `FunctionStep` describes it,
with the nodes that are left taken into account. `parse_tokens` reads its first token twice, and it
ends if and only if the stream that it reads, with the first token in front, is a sequence of such
functions up to an `EOF` token (`parseTokens_terminates_iff`). Everywhere else one of its loops goes
on for ever: at a token that it does not expect, at the last token, or without nodes.
-/

namespace LibPolyCall.Parser

open Tokenizer Fuel

/-- The tokens between the name of a function and the separator behind its parameters: at least one
token, where only the first can be a separator. -/
def Header (header : List PolycallToken) : Prop :=
  ∃ params, (∀ p ∈ params, p.type ≠ .separator) ∧
    (header = params ∧ params ≠ [] ∨ ∃ s, s.type = .separator ∧ header = s :: params)

/-- With `n` nodes left, `parse_block` goes from the tokens `s` to the tokens `s'` and leaves `n'`
nodes: `BodyStep n s n' s'`. -/
inductive BodyStep : ℕ → List PolycallToken → ℕ → List PolycallToken → Prop
  /-- There is no body. -/
  | absent {n : ℕ} {u : PolycallToken} {r : List PolycallToken} (hu : u.type ≠ .separator) :
      BodyStep n (u :: r) n (u :: r)
  /-- Without a node for the body its opening separator is consumed. -/
  | unstored {u v : PolycallToken} {r : List PolycallToken} (hu : u.type = .separator) :
      BodyStep 0 (u :: v :: r) 0 (v :: r)
  /-- A body of expressions between separators, which is not the end of the tokens. -/
  | stored {n : ℕ} {u e w : PolycallToken} {exprs r : List PolycallToken}
      (hu : u.type = .separator) (hexprs : ∀ x ∈ exprs, isExpression x.type = true)
      (he : e.type = .separator) :
      BodyStep (n + 2 * exprs.length + 1) (u :: (exprs ++ e :: w :: r)) n (w :: r)

/-- With `n` nodes left, `parse_function` goes from the tokens `s` to the tokens `s'` and leaves
`n'` nodes: `FunctionStep n s n' s'`. -/
inductive FunctionStep : ℕ → List PolycallToken → ℕ → List PolycallToken → Prop
  /-- Without a node for the function its name is consumed. -/
  | unstored {c t : PolycallToken} {r : List PolycallToken} (hc : c.type = .identifier) :
      FunctionStep 0 (c :: t :: r) 0 (t :: r)
  /-- A name, a header, the separator behind it, and a body. -/
  | stored {n n' : ℕ} {c d : PolycallToken} {header q s' : List PolycallToken}
      (hc : c.type = .identifier) (hheader : Header header) (hd : d.type = .separator)
      (hbody : BodyStep n q n' s') : FunctionStep (n + 1) (c :: (header ++ d :: q)) n' s'

/-- With `n` nodes left, the tokens are a sequence of functions up to an `EOF` token. -/
inductive Ends : ℕ → List PolycallToken → Prop
  | eof {n : ℕ} {c : PolycallToken} {r : List PolycallToken} (hc : c.type = .eof) : Ends n (c :: r)
  | function {n n' : ℕ} {s s' : List PolycallToken} (hstep : FunctionStep n s n' s')
      (h : Ends n' s') : Ends n s

/-- A body starts at a token. -/
theorem BodyStep.exists_cons {n n' : ℕ} {q s' : List PolycallToken} (h : BodyStep n q n' s') :
    ∃ u r, q = u :: r := by
  cases h <;> exact ⟨_, _, rfl⟩

/-- Behind a body a token is left. -/
theorem BodyStep.ne_nil {n n' : ℕ} {q s' : List PolycallToken} (h : BodyStep n q n' s') :
    s' ≠ [] := by
  cases h <;> exact List.cons_ne_nil _ _

/-- A function starts with its name, and something follows. -/
theorem FunctionStep.exists_cons {n n' : ℕ} {s s' : List PolycallToken}
    (h : FunctionStep n s n' s') : ∃ c t r, s = c :: t :: r ∧ c.type = .identifier := by
  cases h with
  | unstored hc => exact ⟨_, _, _, rfl, hc⟩
  | @stored _ _ c d header q _ hc =>
    obtain ⟨t, r, htail⟩ := exists_cons_append header d q
    exact ⟨c, t, r, by rw [htail], hc⟩

/-- Behind a function a token is left. -/
theorem FunctionStep.ne_nil {n n' : ℕ} {s s' : List PolycallToken}
    (h : FunctionStep n s n' s') : s' ≠ [] := by
  cases h with
  | unstored => exact List.cons_ne_nil _ _
  | stored _ _ _ hbody => exact hbody.ne_nil

variable {tokens : List PolycallToken} {state : ParserState} {c t d : PolycallToken}
  {r q : List PolycallToken} {n : ℕ}

/-! ## The header of a function -/

/-- The loop over the parameters, behind the separator that may open them. -/
def skipHeader (tokens : List PolycallToken) (fuel : ℕ) (state : ParserState) :
    Option ParserState :=
  skipParameters tokens fuel (expectToken tokens state .separator).2

/-- The loop over the header of a function ends at the separator behind it. -/
theorem skipHeader_settles {header : List PolycallToken} (hheader : Header header)
    (hd : d.type = .separator) (h : At tokens state (header ++ d :: q) n) :
    ∃ state', Settles (fun fuel => skipHeader tokens fuel state) state' ∧
      At tokens state' (d :: q) n := by
  obtain ⟨params, hparams, ⟨rfl, hne⟩ | ⟨s, hs, rfl⟩⟩ := hheader
  · obtain ⟨p, params', rfl⟩ := List.exists_cons_of_ne_nil hne
    have hexpect : expectToken tokens state .separator = (false, state) :=
      At.expect_ne h (hparams p List.mem_cons_self)
    unfold skipHeader
    rw [hexpect]
    exact skipParameters_settles hparams hd h
  · obtain ⟨t, r', htail⟩ := exists_cons_append params d q
    rw [List.cons_append, htail] at h
    have hpast := h.expect_past hs
    rw [past, ← htail] at hpast
    exact skipParameters_settles hparams hd hpast

/-- The first separator of some tokens. -/
theorem split_separator (s : List PolycallToken) :
    (∀ p ∈ s, p.type ≠ .separator) ∨ ∃ params d q, (∀ p ∈ params, p.type ≠ .separator) ∧
      d.type = .separator ∧ s = params ++ d :: q := by
  induction s with
  | nil => exact .inl (by simp)
  | cons c r ih =>
    by_cases hc : c.type = .separator
    · exact .inr ⟨[], c, r, by simp, hc, rfl⟩
    · rcases ih with hnone | ⟨params, d, q, hparams, hd, rfl⟩
      · exact .inl (List.forall_mem_cons.2 ⟨hc, hnone⟩)
      · exact .inr ⟨c :: params, d, q, List.forall_mem_cons.2 ⟨hc, hparams⟩, hd, rfl⟩

/-- A separator that is the last token is not passed. -/
theorem skipHeader_last (hd : d.type = .separator) (h : At tokens state [d] n) :
    ∃ state', Settles (fun fuel => skipHeader tokens fuel state) state' ∧
      At tokens state' [d] n := by
  have hnone : ∀ p ∈ ([] : List PolycallToken), p.type ≠ .separator := by simp
  exact skipParameters_settles hnone hd (h.expect_past hd)

/-- The loop over the parameters goes on for ever, or it ends at a separator, which is behind a
header unless it is the last token. -/
theorem skipHeader_cases (h : At tokens state (t :: r) n) :
    Diverges (fun fuel => skipHeader tokens fuel state) ∨
      ∃ d q state', d.type = .separator ∧
        Settles (fun fuel => skipHeader tokens fuel state) state' ∧ At tokens state' (d :: q) n ∧
        (t :: r = [d] ∧ q = [] ∨ ∃ header, Header header ∧ t :: r = header ++ d :: q) := by
  by_cases ht : t.type = .separator
  · have hpast := h.expect_past ht
    cases r with
    | nil =>
      obtain ⟨state', hsettles, h'⟩ := skipHeader_last ht h
      exact .inr ⟨t, [], state', ht, hsettles, h', .inl ⟨rfl, rfl⟩⟩
    | cons t' r =>
      rw [past] at hpast
      rcases split_separator (t' :: r) with hnone | ⟨params, d, q, hparams, hd, heq⟩
      · exact .inl (skipParameters_diverges hpast (List.cons_ne_nil _ _) hnone)
      · rw [heq] at hpast
        obtain ⟨state', hsettles, h'⟩ := skipParameters_settles hparams hd hpast
        refine .inr ⟨d, q, state', hd, hsettles, h', .inr ⟨t :: params, ?_, ?_⟩⟩
        · exact ⟨params, hparams, .inr ⟨t, ht, rfl⟩⟩
        · rw [heq, List.cons_append]
  · have hexpect : expectToken tokens state .separator = (false, state) := h.expect_ne ht
    unfold skipHeader
    rw [hexpect]
    rcases split_separator (t :: r) with hnone | ⟨params, d, q, hparams, hd, heq⟩
    · exact .inl (skipParameters_diverges h (List.cons_ne_nil _ _) hnone)
    · have hne : params ≠ [] := by
        rintro rfl
        rw [List.nil_append, List.cons.injEq] at heq
        exact ht (heq.1 ▸ hd)
      rw [heq] at h
      obtain ⟨state', hsettles, h'⟩ := skipParameters_settles hparams hd h
      exact .inr ⟨d, q, state', hd, hsettles, h', .inr ⟨params, ⟨params, hparams, .inl ⟨rfl, hne⟩⟩,
        heq⟩⟩

/-! ## Functions -/

/-- At anything but a name with a token behind it, `parse_function` fails and changes nothing. -/
theorem parseFunction_refused (h : At tokens state (c :: r) n)
    (hc : c.type ≠ .identifier ∨ r = []) (fuel : ℕ) :
    parseFunction tokens fuel state = some (none, state) := by
  have hexpect : expectToken tokens state .identifier = (false, state) := by
    rcases hc with hc | rfl
    · exact h.expect_ne hc
    · exact h.expect_nil _
  rw [parseFunction, hexpect]

/-- Without a node left, `parse_function` consumes the name only. -/
theorem parseFunction_unstored (h : At tokens state (c :: t :: r) 0)
    (hc : c.type = .identifier) :
    ∃ state', (∀ fuel, parseFunction tokens fuel state = some (none, state')) ∧
      At tokens state' (t :: r) 0 := by
  obtain ⟨state', hadvance, h'⟩ := h.advance_cons
  refine ⟨state', fun fuel => ?_, h'⟩
  rw [parseFunction, h.expect_eq hc, hadvance]
  dsimp only
  rw [h'.allocate_zero]

/-- With a name and a node, `parse_function` goes on to its header and to its body. -/
theorem parseFunction_of_node {s₁ s₂ : ParserState}
    (hname : expectToken tokens state .identifier = (true, s₁))
    (hnode : allocateNode s₁ = (true, s₂)) (fuel : ℕ) :
    parseFunction tokens fuel state = (skipHeader tokens fuel s₂).bind fun state =>
      (parseBlock tokens fuel (expectToken tokens state .separator).2).map fun (body, state) =>
        (some (.mk .function s₂.currentValue body.toList), state) := by
  rw [parseFunction, hname]
  dsimp only
  rw [hnode]
  rfl

/-- The function node takes its value from the token behind the name. -/
theorem parseFunction_opened (h : At tokens state (c :: t :: r) (n + 1))
    (hc : c.type = .identifier) :
    ∃ state', At tokens state' (t :: r) n ∧ ∀ fuel, parseFunction tokens fuel state =
      (skipHeader tokens fuel state').bind fun state =>
        (parseBlock tokens fuel (expectToken tokens state .separator).2).map fun (body, state) =>
          (some (.mk .function t.value body.toList), state) := by
  obtain ⟨state₁, hadvance, h₁⟩ := h.advance_cons
  obtain ⟨state₂, hallocate, h₂⟩ := h₁.allocate_succ
  refine ⟨state₂, h₂, fun fuel => ?_⟩
  rw [parseFunction_of_node ((h.expect_eq hc).trans hadvance) hallocate, h₂.currentValue_eq]

/-- A function with a header is as its body is: the body starts behind the separator that ends the
header. -/
theorem parseFunction_headed {header : List PolycallToken} (hc : c.type = .identifier)
    (hheader : Header header) (hd : d.type = .separator)
    (h : At tokens state (c :: (header ++ d :: q)) (n + 1)) :
    ∃ state' value, At tokens state' (past (d :: q)) n ∧
      (header ++ d :: q).head?.map PolycallToken.value = some value ∧
      ∀ body state'', Settles (fun fuel => parseBlock tokens fuel state') (body, state'') →
        Settles (fun fuel => parseFunction tokens fuel state)
          (some (.mk .function value body.toList), state'') := by
  obtain ⟨t, r', htail⟩ := exists_cons_append header d q
  rw [htail] at h
  obtain ⟨state₁, h₁, hopened⟩ := parseFunction_opened h hc
  rw [← htail] at h₁
  obtain ⟨state₂, hskip, h₂⟩ := skipHeader_settles hheader hd h₁
  refine ⟨_, t.value, h₂.expect_past hd, ?_, fun body state'' hbody => ?_⟩
  · rw [htail]
    rfl
  · simp only [hopened]
    exact hskip.bind (hbody.map _)

/-- What `BodyStep` describes happens. -/
theorem parseBlock_of_step {n' : ℕ} {s' : List PolycallToken} (hstep : BodyStep n q n' s')
    (h : At tokens state q n) :
    ∃ body state', Settles (fun fuel => parseBlock tokens fuel state) (body, state') ∧
      At tokens state' s' n' := by
  cases hstep with
  | absent hu =>
    exact ⟨none, state, settles_of_forall (parseBlock_absent h (.inl hu)), h⟩
  | unstored hu =>
    obtain ⟨state', hsome, h'⟩ := parseBlock_unstored h hu
    exact ⟨none, state', settles_of_forall hsome, h'⟩
  | stored hu hexprs he =>
    obtain ⟨state', hblock, h'⟩ := parseBlock_settles hexprs hu he h
    exact ⟨_, state', hblock, h'⟩

/-- With a node for it, a function that `FunctionStep` describes is made. -/
theorem parseFunction_of_stored {n' : ℕ} {s s' : List PolycallToken}
    (hstep : FunctionStep (n + 1) s n' s') (h : At tokens state s (n + 1)) :
    ∃ node state', Settles (fun fuel => parseFunction tokens fuel state) (some node, state') ∧
      At tokens state' s' n' := by
  cases hstep with
  | stored hc hheader hd hbody =>
    obtain ⟨state₁, value, h₁, -, hheaded⟩ := parseFunction_headed hc hheader hd h
    obtain ⟨u, r, rfl⟩ := hbody.exists_cons
    obtain ⟨body, state', hblock, h'⟩ := parseBlock_of_step hbody h₁
    exact ⟨_, state', hheaded body state' hblock, h'⟩

/-- What `FunctionStep` describes happens. -/
theorem parseFunction_of_step {n' : ℕ} {s s' : List PolycallToken}
    (hstep : FunctionStep n s n' s') (h : At tokens state s n) :
    ∃ node state', Settles (fun fuel => parseFunction tokens fuel state) (node, state') ∧
      At tokens state' s' n' := by
  cases n with
  | zero =>
    cases hstep with
    | unstored hc =>
      obtain ⟨state', hsome, h'⟩ := parseFunction_unstored h hc
      exact ⟨none, state', settles_of_forall hsome, h'⟩
  | succ n =>
    obtain ⟨node, state', hsettles, h'⟩ := parseFunction_of_stored hstep h
    exact ⟨some node, state', hsettles, h'⟩

/-! ## Where parsing goes wrong -/

/-- Tokens on which `parse_function` fails without changing anything, although they are not at an
`EOF` token. -/
def Dead (s : List PolycallToken) : Prop :=
  ∃ c r, s = c :: r ∧ c.type ≠ .eof ∧ (c.type ≠ .identifier ∨ r = [])

/-- A separator that is the last token is where the parser is stuck. -/
theorem dead_separator (hd : d.type = .separator) : Dead [d] :=
  ⟨d, [], rfl, by simp [hd], .inr rfl⟩

/-- Where `BodyStep` describes nothing, `parse_block` does not return, or it leaves a separator that
is the last token. -/
theorem parseBlock_of_not_step (hd : d.type = .separator) (h : At tokens state (past (d :: q)) n)
    (hnot : ∀ n' s', ¬BodyStep n q n' s') :
    Diverges (fun fuel => parseBlock tokens fuel state) ∨
      ∃ body state' e m, Settles (fun fuel => parseBlock tokens fuel state) (body, state') ∧
        At tokens state' [e] m ∧ e.type = .separator := by
  have hlast : ∀ {e}, e.type = .separator → At tokens state [e] n →
      ∃ body state' e m, Settles (fun fuel => parseBlock tokens fuel state) (body, state') ∧
        At tokens state' [e] m ∧ e.type = .separator := by
    -- At the last token there is no block, and nothing is consumed.
    intro e he he'
    exact ⟨none, state, e, n, settles_of_forall (parseBlock_absent he' (.inr rfl)), he', he⟩
  cases q with
  | nil => exact .inr (hlast hd h)
  | cons u r =>
    rw [past] at h
    by_cases hu : u.type = .separator
    swap
    · exact absurd (.absent hu) (hnot n (u :: r))
    cases r with
    | nil => exact .inr (hlast hu h)
    | cons v r =>
      cases n with
      | zero => exact absurd (.unstored hu) (hnot 0 (v :: r))
      | succ n =>
        by_cases hbody : ∃ exprs e w m, (∀ x ∈ exprs, isExpression x.type = true) ∧
            e.type = .separator ∧ v :: r = exprs ++ e :: w ∧ n = m + 2 * exprs.length
        · obtain ⟨exprs, e, w, m, hexprs, he, heq, rfl⟩ := hbody
          rw [heq] at h hnot
          cases w with
          | nil =>
            obtain ⟨state', hblock, h'⟩ := parseBlock_settles hexprs hu he h
            exact .inr ⟨_, state', e, m, hblock, h', he⟩
          | cons w r => exact absurd (.stored hu hexprs he) (hnot m (w :: r))
        · refine .inl (parseBlock_diverges h hu fun exprs e w m hexprs he heq hn => ?_)
          exact hbody ⟨exprs, e, w, m, hexprs, he, heq, hn⟩

/-- Where `FunctionStep` describes nothing, `parse_function` does not return, or it leaves tokens at
which it will always fail. -/
theorem parseFunction_of_not_step (h : At tokens state (c :: r) n) (heof : c.type ≠ .eof)
    (hnot : ∀ n' s', ¬FunctionStep n (c :: r) n' s') :
    Diverges (fun fuel => parseFunction tokens fuel state) ∨
      ∃ node state' s' n', Settles (fun fuel => parseFunction tokens fuel state) (node, state') ∧
        At tokens state' s' n' ∧ Dead s' := by
  by_cases hrefused : c.type ≠ .identifier ∨ r = []
  · have hsettles := settles_of_forall (parseFunction_refused h hrefused)
    exact .inr ⟨none, state, _, n, hsettles, h, c, r, rfl, heof, hrefused⟩
  rw [not_or, not_not] at hrefused
  obtain ⟨hc, hr⟩ := hrefused
  obtain ⟨t, r, rfl⟩ := List.exists_cons_of_ne_nil hr
  cases n with
  | zero => exact absurd (.unstored hc) (hnot 0 (t :: r))
  | succ n =>
    obtain ⟨state₁, h₁, hopened⟩ := parseFunction_opened h hc
    simp only [hopened]
    rcases skipHeader_cases h₁ with hskip | ⟨d, q, state₂, hd, hskip, h₂, hheader⟩
    · exact .inl hskip.bind
    · -- With a body behind its header there would be a step.
      have hnobody : ∀ n' s', ¬BodyStep n q n' s' := by
        intro n' s' hbody
        rcases hheader with ⟨-, rfl⟩ | ⟨header, hheader, heq⟩
        · obtain ⟨u, r, hcons⟩ := hbody.exists_cons
          cases hcons
        · rw [heq] at hnot
          exact hnot n' s' (.stored hc hheader hd hbody)
      rcases parseBlock_of_not_step hd (h₂.expect_past hd) hnobody with
        hblock | ⟨body, state', e, m, hblock, h', he⟩
      · exact .inl (hskip.bind_diverges (hblock.map _))
      · exact .inr ⟨_, state', [e], m, hskip.bind (hblock.map _), h', dead_separator he⟩

/-- Where the parser is stuck the program does not end. -/
theorem not_ends_of_dead {s : List PolycallToken} (h : Dead s) : ¬Ends n s := by
  obtain ⟨c, r, rfl, heof, hrefused⟩ := h
  intro hends
  cases hends with
  | eof hc => exact heof hc
  | function hstep =>
    obtain ⟨c', t, r', heq, hc'⟩ := hstep.exists_cons
    obtain ⟨rfl, rfl⟩ := List.cons.inj heq
    rcases hrefused with hc | hr
    · exact hc hc'
    · cases hr

/-! ## The whole program -/

/-- A round of the loop of `parse_tokens` adds the function that it has parsed. -/
theorem addFunction_settles {node : Option PolycallASTNode} {state' : ParserState}
    (children : List PolycallASTNode)
    (h : Settles (fun fuel => parseFunction tokens fuel state) (node, state')) :
    Settles (fun fuel => addFunction tokens fuel (children, state))
      (children ++ node.toList, state') :=
  h.map _

/-- From tokens that are functions up to an `EOF` token the loop ends. -/
theorem parseFunctions_of_ends {s : List PolycallToken} (hends : Ends n s)
    (children : List PolycallASTNode) (h : At tokens state s n) :
    ∃ children' state', Settles (fun fuel => parseFunctions tokens fuel (children, state))
      (children', state') := by
  induction hends generalizing children state with
  | eof hc =>
    refine ⟨children, state, loop_done ?_⟩
    rw [At.isNot_eq h]
    simp [hc]
  | function hstep _ ih =>
    obtain ⟨c, t, r, rfl, hc⟩ := hstep.exists_cons
    have hcond : isNot .eof state = true := by
      rw [At.isNot_eq h]
      simp [hc]
    obtain ⟨node, state₁, hfunction, h₁⟩ := parseFunction_of_step hstep h
    obtain ⟨children', state', hloop⟩ := ih (children ++ node.toList) h₁
    exact ⟨children', state', loop_round hcond (addFunction_settles children hfunction) hloop⟩

/-- From other tokens it does not. -/
theorem parseFunctions_of_not_ends {s : List PolycallToken} (hs : s ≠ []) (hnot : ¬Ends n s)
    (children : List PolycallASTNode) (h : At tokens state s n) :
    Diverges (fun fuel => parseFunctions tokens fuel (children, state)) := by
  refine loop_diverges (fun x => ∃ n s, At tokens x.2 s n ∧ s ≠ [] ∧ ¬Ends n s) ?_ ?_
    ⟨n, s, h, hs, hnot⟩
  · rintro x ⟨n, s, h, hs, hnot⟩
    obtain ⟨c, r, rfl⟩ := List.exists_cons_of_ne_nil hs
    rw [h.isNot_eq]
    exact decide_eq_true fun hc => hnot (.eof hc)
  · rintro x ⟨n, s, h, hs, hnot⟩
    -- A round takes a function from the front, or it runs into tokens that it cannot pass.
    by_cases hstep : ∃ n' s', FunctionStep n s n' s'
    · obtain ⟨n', s', hstep⟩ := hstep
      obtain ⟨node, state', hfunction, h'⟩ := parseFunction_of_step hstep h
      refine .inr ⟨_, addFunction_settles x.1 hfunction, n', s', h', hstep.ne_nil, ?_⟩
      exact fun hends => hnot (.function hstep hends)
    · obtain ⟨c, r, rfl⟩ := List.exists_cons_of_ne_nil hs
      have heof : c.type ≠ .eof := fun hc => hnot (.eof hc)
      rcases parseFunction_of_not_step h heof (fun n' s' hstep' => hstep ⟨n', s', hstep'⟩) with
        hfunction | ⟨node, state', s', n', hfunction, h', hdead⟩
      · exact .inl (hfunction.map _)
      · refine .inr ⟨_, addFunction_settles x.1 hfunction, n', s', h', ?_, not_ends_of_dead hdead⟩
        obtain ⟨c, r, rfl, -⟩ := hdead
        exact List.cons_ne_nil _ _

/-- With a node for the root the functions are parsed, and the first token is read twice. -/
theorem parseProgram_eq (token : PolycallToken) (rest : List PolycallToken) (n : ℕ) :
    ∃ state, At (token :: rest) state (token :: token :: rest) n ∧
      ∀ fuel, parseProgram (token :: rest) (n + 1) fuel =
        (parseFunctions (token :: rest) fuel ([], state)).map fun (children, state) =>
          (some (.mk .program .none children), state) := by
  have hinitial : At (token :: rest) (initialState (token :: rest) (n + 1))
      (token :: token :: rest) (n + 1) := ⟨rfl, rfl, (Nat.zero_add _).symm⟩
  obtain ⟨state, hallocate, h⟩ := hinitial.allocate_succ
  refine ⟨state, h, fun fuel => ?_⟩
  rw [parseProgram, hallocate]

/-- `parse_tokens` does not return when its loop does not. -/
theorem parseTokens_diverges {token : PolycallToken} {rest : List PolycallToken}
    (hnot : ¬Ends n (token :: token :: rest)) :
    Diverges (parseTokens (token :: rest) (n + 1)) := by
  obtain ⟨state, h, hprogram⟩ := parseProgram_eq token rest n
  have hloop := parseFunctions_of_not_ends (List.cons_ne_nil _ _) hnot [] h
  intro fuel
  have hnone : parseFunctions (token :: rest) fuel ([], state) = none := hloop fuel
  rw [parseTokens, hprogram, hnone, Option.map_none, Option.map_none]

/-- `parse_tokens` returns if and only if there is no node for the root, or the tokens, with the
first one in front once more, are functions up to an `EOF` token. -/
theorem parseTokens_terminates_iff (tokens : List PolycallToken) (maxNodes : ℕ) :
    (∃ fuel result, parseTokens tokens maxNodes fuel = some result) ↔
      maxNodes = 0 ∨
        ∀ token rest, tokens = token :: rest → Ends (maxNodes - 1) (token :: tokens) := by
  cases maxNodes with
  | zero =>
    have hsome : ∃ result, parseTokens tokens 0 0 = some result := ⟨_, rfl⟩
    exact iff_of_true ⟨0, hsome⟩ (.inl rfl)
  | succ n =>
    rw [or_iff_right (Nat.succ_ne_zero n), Nat.add_sub_cancel]
    cases tokens with
    | nil =>
      -- Without a current token no loop runs.
      have hsome : ∃ result, parseTokens [] (n + 1) 1 = some result := ⟨_, rfl⟩
      exact iff_of_true ⟨1, hsome⟩ fun token rest hnil => nomatch hnil
    | cons token rest =>
      constructor
      · rintro ⟨fuel, result, hresult⟩ token' rest' heq
        obtain ⟨rfl, rfl⟩ := List.cons.inj heq
        by_contra hnot
        rw [parseTokens_diverges hnot fuel] at hresult
        cases hresult
      · intro hends
        obtain ⟨state, h, hprogram⟩ := parseProgram_eq token rest n
        obtain ⟨children, state', hloop⟩ := parseFunctions_of_ends (hends token rest rfl) [] h
        obtain ⟨fuel, hfuel⟩ := hloop.exists_some
        have hroot := (hprogram fuel).trans (congrArg _ hfuel)
        exact ⟨fuel, _, congrArg (Option.map _) hroot⟩

/-- A program that starts with an operator. -/
theorem operator_never_parsed :
    ¬∃ fuel result, parseTokens [⟨.none, .operator, 0, 1, 1, 1⟩, ⟨.none, .eof, 0, 1, 2, 0⟩] 65536
      fuel = some result := by
  rintro ⟨fuel, result, hresult⟩
  have hdead : Dead [⟨.none, .operator, 0, 1, 1, 1⟩, ⟨.none, .operator, 0, 1, 1, 1⟩,
      ⟨.none, .eof, 0, 1, 2, 0⟩] := ⟨_, _, rfl, by decide, .inl (by decide)⟩
  rw [parseTokens_diverges (not_ends_of_dead hdead) fuel] at hresult
  cases hresult

end LibPolyCall.Parser
