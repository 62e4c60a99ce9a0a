import LibPolyCall.Parser.Parse

/-!
# What the parsing functions do

What each parsing function makes of the tokens that are left, one theorem for each way it can end,
and for each way in which a loop can go on for ever. `At` names what the functions look at: the
current token and those behind it, and the nodes that are left.
-/

namespace LibPolyCall.Parser

open Tokenizer Fuel

/-- The parser is about to read the tokens `s`, the first of which is the current one, and can still
take `n` nodes. -/
structure At (tokens : List PolycallToken) (state : ParserState) (s : List PolycallToken)
    (n : ℕ) : Prop where
  current : state.currentToken.map Prod.snd = s.head?
  rest : tokens.drop state.tokenIndex = s.tail
  free : state.pool.capacity = state.pool.used + n

variable {tokens : List PolycallToken} {state : ParserState} {c t u : PolycallToken}
  {r : List PolycallToken} {n : ℕ}

namespace At

/-- The current token is the first one. -/
theorem currentToken_eq (h : At tokens state (c :: r) n) :
    ∃ i, state.currentToken = some (i, c) := by
  obtain ⟨⟨i, c'⟩, hsome, rfl⟩ := Option.map_eq_some_iff.1 h.current
  exact ⟨i, hsome⟩

/-- Its type is the current type. -/
theorem currentType_eq (h : At tokens state (c :: r) n) : state.currentType = some c.type := by
  obtain ⟨i, hi⟩ := h.currentToken_eq
  rw [ParserState.currentType, hi, Option.map_some]

/-- Its value is the current value. -/
theorem currentValue_eq (h : At tokens state (c :: r) n) : state.currentValue = c.value := by
  obtain ⟨i, hi⟩ := h.currentToken_eq
  rw [ParserState.currentValue, hi, Option.map_some, Option.getD_some]

/-- The loops go on while the first token is not of the type that ends them. -/
theorem isNot_eq (h : At tokens state (c :: r) n) (type : PolycallTokenType) :
    isNot type state = decide (c.type ≠ type) := by
  rw [isNot, h.currentType_eq]

/-- Behind the last token there is nothing to go on to. -/
theorem advance_nil (h : At tokens state [c] n) : advanceToken tokens state = (false, state) := by
  have hnone : tokens[state.tokenIndex]? = none := by
    rw [← List.head?_drop, h.rest]
    rfl
  rw [advanceToken, hnone]

/-- With a token behind the first one, the parser advances to it. -/
theorem advance_cons (h : At tokens state (c :: t :: r) n) :
    ∃ state', advanceToken tokens state = (true, state') ∧ At tokens state' (t :: r) n := by
  have hsome : tokens[state.tokenIndex]? = some t := by
    rw [← List.head?_drop, h.rest]
    rfl
  rw [advanceToken, hsome]
  refine ⟨_, rfl, rfl, ?_, h.free⟩
  show tokens.drop (state.tokenIndex + 1) = r
  rw [← List.drop_drop, h.rest]
  rfl

/-- A token of another type is not consumed. -/
theorem expect_ne (h : At tokens state (c :: r) n) {type : PolycallTokenType}
    (hc : c.type ≠ type) : expectToken tokens state type = (false, state) := by
  rw [expectToken, h.currentType_eq, if_neg (fun heq => hc (Option.some.inj heq))]

/-- A token of the type expected is consumed. -/
theorem expect_eq (h : At tokens state (c :: r) n) {type : PolycallTokenType}
    (hc : c.type = type) : expectToken tokens state type = advanceToken tokens state := by
  rw [expectToken, h.currentType_eq, if_pos (congrArg some hc)]

/-- The last token is never passed. -/
theorem expect_nil (h : At tokens state [c] n) (type : PolycallTokenType) :
    expectToken tokens state type = (false, state) := by
  by_cases hc : c.type = type
  · rw [h.expect_eq hc, h.advance_nil]
  · rw [h.expect_ne hc]

/-- Without a node left, none is taken. -/
theorem allocate_zero (h : At tokens state r 0) : allocateNode state = (false, state) := by
  rw [allocateNode, if_pos (by rw [h.free]; omega)]

/-- With a node left, one is taken. -/
theorem allocate_succ (h : At tokens state r (n + 1)) :
    ∃ state', allocateNode state = (true, state') ∧ At tokens state' r n := by
  have hfree := h.free
  rw [allocateNode, if_neg (by omega)]
  refine ⟨_, rfl, h.current, h.rest, ?_⟩
  show state.pool.capacity = state.pool.used + 1 + n
  omega

end At

/-- The tokens behind the current one, which stays when it is the last. -/
def past : List PolycallToken → List PolycallToken
  | _ :: t :: r => t :: r
  | s => s

/-- Advancing leads to the tokens behind the first one. -/
theorem At.advance_past (h : At tokens state (c :: r) n) :
    At tokens (advanceToken tokens state).2 (past (c :: r)) n := by
  cases r with
  | nil =>
    rw [h.advance_nil]
    exact h
  | cons t r =>
    obtain ⟨state', hadvance, h'⟩ := h.advance_cons
    rw [hadvance]
    exact h'

/-- Consuming leads to the tokens behind the first one. -/
theorem At.expect_past (h : At tokens state (c :: r) n) {type : PolycallTokenType}
    (hc : c.type = type) : At tokens (expectToken tokens state type).2 (past (c :: r)) n := by
  rw [h.expect_eq hc]
  exact h.advance_past

/-- Where some tokens are followed by another one, there is a first token. -/
theorem exists_cons_append (s : List PolycallToken) (c : PolycallToken) (r : List PolycallToken) :
    ∃ t r', s ++ c :: r = t :: r' :=
  List.exists_cons_of_ne_nil (List.append_ne_nil_of_right_ne_nil s (List.cons_ne_nil c r))

/-! ## Statements and blocks -/

/-- The statement of an expression. -/
def statementOf (token : PolycallToken) : PolycallASTNode :=
  .mk .statement .none [.mk .expression token.value []]

/-- Without a node left, there is no statement. -/
theorem parseStatement_zero (h : At tokens state (c :: r) 0) :
    parseStatement tokens state = (none, state) := by
  obtain ⟨i, hi⟩ := h.currentToken_eq
  simp only [parseStatement, hi, h.allocate_zero]

/-- A token that is no expression is not consumed. -/
theorem parseStatement_other (h : At tokens state (c :: r) (n + 1))
    (hc : isExpression c.type = false) :
    ∃ state', parseStatement tokens state = (some (.mk .statement .none []), state') ∧
      At tokens state' (c :: r) n := by
  obtain ⟨i, hi⟩ := h.currentToken_eq
  obtain ⟨state₁, hallocate₁, h₁⟩ := h.allocate_succ
  obtain ⟨j, hj⟩ := h₁.currentToken_eq
  refine ⟨state₁, ?_, h₁⟩
  simp only [parseStatement, hi, hallocate₁, parseExpression, hj, hc]
  rfl

/-- Without a node for an expression there is only the statement. -/
theorem parseStatement_one (h : At tokens state (c :: r) 1) :
    ∃ state', parseStatement tokens state = (some (.mk .statement .none []), state') ∧
      At tokens state' (c :: r) 0 := by
  cases hc : isExpression c.type with
  | false => exact parseStatement_other h hc
  | true =>
    obtain ⟨i, hi⟩ := h.currentToken_eq
    obtain ⟨state₁, hallocate₁, h₁⟩ := h.allocate_succ
    obtain ⟨j, hj⟩ := h₁.currentToken_eq
    refine ⟨state₁, ?_, h₁⟩
    simp only [parseStatement, hi, hallocate₁, parseExpression, hj, hc, h₁.allocate_zero, if_true]

/-- An expression takes two nodes. -/
theorem parseStatement_past (h : At tokens state (c :: r) (n + 2))
    (hc : isExpression c.type = true) :
    ∃ state', parseStatement tokens state = (some (statementOf c), state') ∧
      At tokens state' (past (c :: r)) n := by
  obtain ⟨i, hi⟩ := h.currentToken_eq
  obtain ⟨state₁, hallocate₁, h₁⟩ := h.allocate_succ
  obtain ⟨j, hj⟩ := h₁.currentToken_eq
  obtain ⟨state₂, hallocate₂, h₂⟩ := h₁.allocate_succ
  refine ⟨(advanceToken tokens state₂).2, ?_, h₂.advance_past⟩
  simp only [parseStatement, hi, hallocate₁, parseExpression, hj, hc, hallocate₂, if_true]
  rfl

/-- An expression with a token behind it is consumed. -/
theorem parseStatement_expression (h : At tokens state (c :: t :: r) (n + 2))
    (hc : isExpression c.type = true) :
    ∃ state', parseStatement tokens state = (some (statementOf c), state') ∧
      At tokens state' (t :: r) n :=
  parseStatement_past h hc

/-- At the last token, at a token that is no expression, and without two nodes, no token is
consumed. -/
theorem parseStatement_stuck (h : At tokens state (c :: r) n)
    (hstuck : r = [] ∨ isExpression c.type = false ∨ n < 2) :
    ∃ stmt state' m, parseStatement tokens state = (stmt, state') ∧
      At tokens state' (c :: r) m ∧ m ≤ n := by
  match n with
  | 0 => exact ⟨none, state, 0, parseStatement_zero h, h, Nat.le_refl 0⟩
  | 1 =>
    obtain ⟨state', hparse, h'⟩ := parseStatement_one h
    exact ⟨_, state', 0, hparse, h', Nat.zero_le 1⟩
  | n + 2 =>
    cases hc : isExpression c.type with
    | false =>
      obtain ⟨state', hparse, h'⟩ := parseStatement_other h hc
      exact ⟨_, state', n + 1, hparse, h', Nat.le_succ _⟩
    | true =>
      obtain ⟨state', hparse, h'⟩ := parseStatement_past h hc
      have hr : r = [] := by
        rcases hstuck with hr | hc' | hlt
        · exact hr
        · rw [hc] at hc'
          cases hc'
        · omega
      subst hr
      exact ⟨_, state', n, hparse, h', by omega⟩

/-- A round of the loop of `parse_block` adds the statement that it has parsed. -/
theorem addStatement_settles {state' : ParserState} {stmt : Option PolycallASTNode}
    (children : List PolycallASTNode) (h : parseStatement tokens state = (stmt, state')) :
    Settles (fun _ => some (addStatement tokens (children, state)))
      (children ++ stmt.toList, state') := by
  rw [addStatement, h]
  exact settles_some _

/-- The body of a block: expressions up to a separator, with two nodes for each. -/
theorem parseStatements_settles {exprs : List PolycallToken} (children : List PolycallASTNode)
    (hexprs : ∀ e ∈ exprs, isExpression e.type = true) (hc : c.type = .separator)
    (h : At tokens state (exprs ++ c :: r) (n + 2 * exprs.length)) :
    ∃ state', Settles (fun fuel => parseStatements tokens fuel (children, state))
        (children ++ exprs.map statementOf, state') ∧ At tokens state' (c :: r) n := by
  induction exprs generalizing children state with
  | nil =>
    refine ⟨state, ?_, h⟩
    rw [List.map_nil, List.append_nil]
    exact loop_done (by rw [At.isNot_eq h]; simp [hc])
  | cons e exprs ih =>
    rw [List.forall_mem_cons] at hexprs
    have hcond : isNot .separator state = true := by
      rw [At.isNot_eq h, decide_eq_true_eq]
      intro hsep
      have hexpr := hexprs.1
      rw [hsep] at hexpr
      cases hexpr
    obtain ⟨t, r', htail⟩ := exists_cons_append exprs c r
    rw [List.cons_append, htail, List.length_cons, Nat.mul_succ, ← Nat.add_assoc] at h
    -- The expression has a token behind it, so the parser goes on to that.
    obtain ⟨state₁, hround, h₁⟩ := parseStatement_expression h hexprs.1
    rw [← htail] at h₁
    obtain ⟨state', hloop, h'⟩ := ih (children ++ [statementOf e]) hexprs.2 h₁
    rw [List.append_assoc] at hloop
    exact ⟨state', loop_round hcond (addStatement_settles children hround) hloop, h'⟩

/-- A body that is no sequence of expressions up to a separator with two nodes for each is never
left. -/
theorem parseStatements_diverges {s : List PolycallToken} (children : List PolycallASTNode)
    (h : At tokens state s n) (hs : s ≠ [])
    (hnot : ∀ exprs c r m, (∀ e ∈ exprs, isExpression e.type = true) → c.type = .separator →
      s = exprs ++ c :: r → n ≠ m + 2 * exprs.length) :
    Diverges (fun fuel => parseStatements tokens fuel (children, state)) := by
  -- The induction is on the tokens: a statement of one expression takes one of them and two nodes.
  induction s generalizing children state n with
  | nil => exact absurd rfl hs
  | cons c r ih =>
    have hsep : c.type ≠ .separator := fun hsep => hnot [] c r n (by simp) hsep rfl rfl
    have hcond : isNot .separator state = true := by
      rw [h.isNot_eq]
      exact decide_eq_true hsep
    by_cases hstuck : r = [] ∨ isExpression c.type = false ∨ n < 2
    · -- Nodes may be taken, but the tokens stay as they are.
      refine loop_diverges (fun s => ∃ m, At tokens s.2 (c :: r) m ∧
        (r = [] ∨ isExpression c.type = false ∨ m < 2)) ?_ ?_ ⟨n, h, hstuck⟩
      · rintro s ⟨m, hm, -⟩
        rw [hm.isNot_eq]
        exact decide_eq_true hsep
      · rintro s ⟨m, hm, hstuck⟩
        obtain ⟨stmt, state', m', hround, h', hle⟩ := parseStatement_stuck hm hstuck
        exact .inr ⟨_, addStatement_settles s.1 hround, m', h',
          hstuck.imp_right fun hor => hor.imp_right hle.trans_lt⟩
    · -- An expression is consumed, and the rest of the body is as bad.
      rw [not_or, not_or, Bool.not_eq_false, not_lt] at hstuck
      obtain ⟨hr, hexpr, htwo⟩ := hstuck
      obtain ⟨t, r', rfl⟩ := List.exists_cons_of_ne_nil hr
      obtain ⟨m, rfl⟩ := Nat.exists_eq_add_of_le' htwo
      obtain ⟨state₁, hround, h₁⟩ := parseStatement_expression h hexpr
      have hnot₁ : ∀ exprs d q k, (∀ e ∈ exprs, isExpression e.type = true) →
          d.type = .separator → t :: r' = exprs ++ d :: q → m ≠ k + 2 * exprs.length := by
        intro exprs d q k hexprs hd heq hm
        refine hnot (c :: exprs) d q k (List.forall_mem_cons.2 ⟨hexpr, hexprs⟩) hd ?_ ?_
        · rw [heq, List.cons_append]
        · rw [List.length_cons, hm]
          omega
      exact loop_round_diverges hcond (addStatement_settles children hround)
        (ih (children ++ [statementOf c]) h₁ hr hnot₁)

/-- Without a separator that something follows there is no block. -/
theorem parseBlock_absent (h : At tokens state (c :: r) n)
    (hc : c.type ≠ .separator ∨ r = []) (fuel : ℕ) :
    parseBlock tokens fuel state = some (none, state) := by
  have hexpect : expectToken tokens state .separator = (false, state) := by
    rcases hc with hc | rfl
    · exact h.expect_ne hc
    · exact h.expect_nil _
  rw [parseBlock, hexpect]

/-- Without a node for the block its opening separator is consumed all the same. -/
theorem parseBlock_unstored (h : At tokens state (c :: t :: r) 0) (hc : c.type = .separator) :
    ∃ state', (∀ fuel, parseBlock tokens fuel state = some (none, state')) ∧
      At tokens state' (t :: r) 0 := by
  obtain ⟨state', hadvance, h'⟩ := h.advance_cons
  refine ⟨state', fun fuel => ?_, h'⟩
  rw [parseBlock, h.expect_eq hc, hadvance]
  dsimp only
  rw [h'.allocate_zero]

/-- The block of these expressions. -/
def blockOf (exprs : List PolycallToken) : PolycallASTNode :=
  .mk .block .none (exprs.map statementOf)

/-- With a node for it, a block is opened and its statements are parsed. -/
theorem parseBlock_opened (h : At tokens state (c :: t :: r) (n + 1)) (hc : c.type = .separator) :
    ∃ state', (∀ fuel, parseBlock tokens fuel state =
        (parseStatements tokens fuel ([], state')).map fun (children, state) =>
          (some (.mk .block .none children), (expectToken tokens state .separator).2)) ∧
      At tokens state' (t :: r) n := by
  obtain ⟨state₁, hadvance, h₁⟩ := h.advance_cons
  obtain ⟨state₂, hallocate, h₂⟩ := h₁.allocate_succ
  refine ⟨state₂, fun fuel => ?_, h₂⟩
  rw [parseBlock, h.expect_eq hc, hadvance]
  dsimp only
  rw [hallocate]

/-- A block whose body is a sequence of expressions up to a separator, with two nodes for each. -/
theorem parseBlock_settles {exprs : List PolycallToken} {d : PolycallToken}
    (hexprs : ∀ e ∈ exprs, isExpression e.type = true) (hc : c.type = .separator)
    (hd : d.type = .separator)
    (h : At tokens state (c :: (exprs ++ d :: r)) (n + 2 * exprs.length + 1)) :
    ∃ state', Settles (fun fuel => parseBlock tokens fuel state)
        (some (blockOf exprs), state') ∧ At tokens state' (past (d :: r)) n := by
  obtain ⟨t, r', htail⟩ := exists_cons_append exprs d r
  rw [htail] at h
  obtain ⟨state₁, hopened, h₁⟩ := parseBlock_opened h hc
  rw [← htail] at h₁
  obtain ⟨state₂, hstatements, h₂⟩ := parseStatements_settles [] hexprs hd h₁
  refine ⟨_, ?_, h₂.expect_past hd⟩
  simp only [hopened]
  exact hstatements.map _

/-- A block with another body is never left. -/
theorem parseBlock_diverges (h : At tokens state (c :: t :: r) (n + 1)) (hc : c.type = .separator)
    (hnot : ∀ exprs d q m, (∀ e ∈ exprs, isExpression e.type = true) → d.type = .separator →
      t :: r = exprs ++ d :: q → n ≠ m + 2 * exprs.length) :
    Diverges (fun fuel => parseBlock tokens fuel state) := by
  obtain ⟨state₁, hopened, h₁⟩ := parseBlock_opened h hc
  simp only [hopened]
  exact (parseStatements_diverges [] h₁ (List.cons_ne_nil _ _) hnot).map _

/-! ## Parameters -/

/-- The parameters are skipped up to the next separator. -/
theorem skipParameters_settles {params : List PolycallToken}
    (hparams : ∀ p ∈ params, p.type ≠ .separator) (hc : c.type = .separator)
    (h : At tokens state (params ++ c :: r) n) :
    ∃ state', Settles (fun fuel => skipParameters tokens fuel state) state' ∧
      At tokens state' (c :: r) n := by
  induction params generalizing state with
  | nil =>
    refine ⟨state, loop_done ?_, h⟩
    rw [At.isNot_eq h]
    simp [hc]
  | cons p params ih =>
    rw [List.forall_mem_cons] at hparams
    have hcond : isNot .separator state = true := by
      rw [At.isNot_eq h]
      exact decide_eq_true hparams.1
    have h₁ : At tokens (advanceToken tokens state).2 (params ++ c :: r) n := by
      obtain ⟨t, r', htail⟩ := exists_cons_append params c r
      rw [List.cons_append, htail] at h
      rw [htail]
      exact h.advance_past
    obtain ⟨state', hloop, h'⟩ := ih hparams.2 h₁
    exact ⟨state', loop_round hcond (settles_some _) hloop, h'⟩

/-- Without a separator the parameters never end. -/
theorem skipParameters_diverges {s : List PolycallToken} (h : At tokens state s n) (hs : s ≠ [])
    (hnone : ∀ p ∈ s, p.type ≠ .separator) :
    Diverges (fun fuel => skipParameters tokens fuel state) := by
  refine loop_diverges (fun state => ∃ s, At tokens state s n ∧ s ≠ [] ∧
    ∀ p ∈ s, p.type ≠ .separator) ?_ ?_ ⟨s, h, hs, hnone⟩
  · rintro state ⟨s, h, hs, hnone⟩
    obtain ⟨c, r, rfl⟩ := List.exists_cons_of_ne_nil hs
    rw [h.isNot_eq]
    exact decide_eq_true (hnone c List.mem_cons_self)
  · rintro state ⟨s, h, hs, hnone⟩
    obtain ⟨c, r, rfl⟩ := List.exists_cons_of_ne_nil hs
    refine .inr ⟨_, settles_some _, past (c :: r), h.advance_past, ?_⟩
    cases r with
    | nil => exact ⟨hs, hnone⟩
    | cons t r => exact ⟨List.cons_ne_nil _ _, fun p hp => hnone p (List.mem_cons_of_mem _ hp)⟩

end LibPolyCall.Parser
