import LibPolyCall.Parser.Termination
import Mathlib.Order.MinMax

/-!
# The slots for the children

`parse_tokens` allocates 16 slots for the functions of the program and `parse_block` 16 for the
statements of a block, and both store into them without a look at `child_count`. `Stores` are the
stores that happen when some tokens are parsed, also where parsing does not end. They stay in the
slots exactly where the stream of tokens `Fits` (`storesInSlots_iff`): at most 16 functions are
stored, and no body that is opened has more than 16 statements to store (`statementCount`), those
that are stored without a token being consumed included.
-/

namespace LibPolyCall.Parser

open Tokenizer Fuel

/-- The slots that are allocated for the children of a program and of a block. -/
def childSlots : ℕ := 16

/-- A call of `parse_function` in the state `state` takes its node, and calls `parse_block` in the
state `state'`. -/
def CallsBlock (tokens : List PolycallToken) (state state' : ParserState) : Prop :=
  ∃ s₁ s₂ s₃, expectToken tokens state .identifier = (true, s₁) ∧ allocateNode s₁ = (true, s₂) ∧
    Settles (fun fuel => skipHeader tokens fuel s₂) s₃ ∧
    state' = (expectToken tokens s₃ .separator).2

/-- A call of `parse_block` in the state `state` takes its node, and its loop starts in the state
`state'`. -/
def OpensBlock (tokens : List PolycallToken) (state state' : ParserState) : Prop :=
  ∃ s₁, expectToken tokens state .separator = (true, s₁) ∧ allocateNode s₁ = (true, state')

/-- The states that the loop of `parse_tokens` comes to. -/
def VisitsFunctions (tokens : List PolycallToken) :
    List PolycallASTNode × ParserState → List PolycallASTNode × ParserState → Prop :=
  Visits (fun s => isNot .eof s.2) (addFunction tokens)

/-- The states that the loop of `parse_block` comes to. -/
def VisitsStatements (tokens : List PolycallToken) :
    List PolycallASTNode × ParserState → List PolycallASTNode × ParserState → Prop :=
  Visits (fun s => isNot .separator s.2) fun _ s => some (addStatement tokens s)

/-- The loop of `parse_tokens` comes to the state `s` and goes on. -/
def InProgram (tokens : List PolycallToken) (maxNodes : ℕ)
    (s : List PolycallASTNode × ParserState) : Prop :=
  ∃ state, allocateNode (initialState tokens maxNodes) = (true, state) ∧
    VisitsFunctions tokens ([], state) s ∧ isNot .eof s.2 = true

/-- The loop of `parse_block`, started in the state `state`, comes to the state `s` and goes on. -/
def InBlock (tokens : List PolycallToken) (state : ParserState)
    (s : List PolycallASTNode × ParserState) : Prop :=
  VisitsStatements tokens ([], state) s ∧ isNot .separator s.2 = true

/-- While the tokens are parsed, a child is stored in a node of the type with this `child_count`. -/
inductive Stores (tokens : List PolycallToken) (maxNodes : ℕ) : PolycallASTType → ℕ → Prop
  | function {s : List PolycallASTNode × ParserState} {node : PolycallASTNode}
      {state' : ParserState} (hs : InProgram tokens maxNodes s)
      (hnode : Settles (fun fuel => parseFunction tokens fuel s.2) (some node, state')) :
      Stores tokens maxNodes .program s.1.length
  | statement {s t : List PolycallASTNode × ParserState} {called opened state' : ParserState}
      {stmt : PolycallASTNode} (hs : InProgram tokens maxNodes s)
      (hcalls : CallsBlock tokens s.2 called) (hopens : OpensBlock tokens called opened)
      (ht : InBlock tokens opened t) (hstmt : parseStatement tokens t.2 = (some stmt, state')) :
      Stores tokens maxNodes .block t.1.length

/-- No child is stored behind the slots. -/
def StoresInSlots (tokens : List PolycallToken) (maxNodes : ℕ) : Prop :=
  ∀ type count, Stores tokens maxNodes type count → count < childSlots

/-! ## What the tokens ask for -/

/-- A token that is an expression of its own. -/
def startsExpression (token : PolycallToken) : Bool := isExpression token.type

/-- The statements that a body has to store with `n` nodes left. Behind the expressions that it
starts with, a token that is no separator is never consumed, and the statements for it take what is
left of the nodes. -/
def statementCount (n : ℕ) (body : List PolycallToken) : ℕ :=
  let exprs := (body.takeWhile startsExpression).length
  match body.dropWhile startsExpression with
  | [] => n - n / 2
  | token :: _ => if token.type = .separator then min exprs (n - n / 2) else n - min exprs (n / 2)

/-- With `n` nodes left, the tokens start with a function up to its body: `n'` nodes and the tokens
`q` are left. The last token is never passed. -/
inductive Headed : ℕ → List PolycallToken → ℕ → List PolycallToken → Prop
  | header {n : ℕ} {c d : PolycallToken} {header q : List PolycallToken}
      (hc : c.type = .identifier) (hheader : Header header) (hd : d.type = .separator) :
      Headed (n + 1) (c :: (header ++ d :: q)) n (past (d :: q))
  | last {n : ℕ} {c d : PolycallToken} (hc : c.type = .identifier) (hd : d.type = .separator) :
      Headed (n + 1) [c, d] n [d]

/-- With a node for it, a block is opened by a separator that something follows. -/
inductive Opened : ℕ → List PolycallToken → ℕ → List PolycallToken → Prop
  | block {n : ℕ} {u t : PolycallToken} {r : List PolycallToken} (hu : u.type = .separator) :
      Opened (n + 1) (u :: t :: r) n (t :: r)

/-- With `n` nodes left, a body ends: it is expressions up to a separator, with two nodes for
each. -/
def Closed (n : ℕ) (body : List PolycallToken) : Prop :=
  ∃ exprs e r, (∀ x ∈ exprs, isExpression x.type = true) ∧ e.type = .separator ∧
    body = exprs ++ e :: r ∧ 2 * exprs.length ≤ n

/-- With `n` nodes left, the tokens `s` start with `k` functions, which leave `n'` nodes and the
tokens `s'`: `Functions k n s n' s'`. -/
inductive Functions : ℕ → ℕ → List PolycallToken → ℕ → List PolycallToken → Prop
  | none {n : ℕ} {s : List PolycallToken} : Functions 0 n s n s
  | more {k n n' n'' : ℕ} {s s' s'' : List PolycallToken} (h : Functions k n s n' s')
      (hstep : FunctionStep n' s' n'' s'') : Functions (k + 1) n s n'' s''

/-- With `n` nodes left, the tokens ask for no more than the slots: a function that takes a node and
ends has fewer than 16 functions in front of it, and a body that is opened has at most 16 statements
to store. -/
structure Fits (n : ℕ) (s : List PolycallToken) : Prop where
  functions : ∀ k m t b q, Functions k n s m t → Headed m t b q →
    (∀ i body, Opened b q i body → Closed i body) → k < childSlots
  statements : ∀ k m t b q i body, Functions k n s m t → Headed m t b q → Opened b q i body →
    statementCount i body ≤ childSlots

variable {tokens q body : List PolycallToken} {state state' : ParserState} {c t : PolycallToken}
  {s r : List PolycallToken} {n m i k : ℕ}

/-! ## Statements -/

/-- Without nodes there are no statements. -/
theorem statementCount_zero (body : List PolycallToken) : statementCount 0 body = 0 := by
  unfold statementCount
  dsimp only
  split
  · rfl
  · split_ifs
    · exact Nat.min_zero _
    · exact Nat.zero_sub _

/-- A separator ends the statements. -/
theorem statementCount_separator (hc : c.type = .separator) : statementCount n (c :: r) = 0 := by
  have hexpr : ¬ startsExpression c = true := by
    rw [startsExpression, hc]
    decide
  unfold statementCount
  rw [List.takeWhile_cons_of_neg hexpr, List.dropWhile_cons_of_neg hexpr]
  dsimp only
  rw [if_pos hc]
  exact Nat.zero_min _

/-- A token that is never consumed takes every node. -/
theorem statementCount_other (hc : c.type ≠ .separator) (hexpr : ¬ isExpression c.type = true) :
    statementCount n (c :: r) = n := by
  have hexpr : ¬ startsExpression c = true := hexpr
  unfold statementCount
  rw [List.takeWhile_cons_of_neg hexpr, List.dropWhile_cons_of_neg hexpr]
  dsimp only
  rw [if_neg hc, List.length_nil, Nat.zero_min, Nat.sub_zero]

/-- A single node is enough for one statement. -/
theorem statementCount_one (hc : c.type ≠ .separator) : statementCount 1 (c :: r) = 1 := by
  by_cases hexpr : isExpression c.type = true
  · have hexpr : startsExpression c = true := hexpr
    unfold statementCount
    rw [List.takeWhile_cons_of_pos hexpr, List.dropWhile_cons_of_pos hexpr, List.length_cons]
    dsimp only
    split
    · rfl
    · split_ifs <;> omega
  · exact statementCount_other hc hexpr

/-- An expression takes two nodes. -/
theorem statementCount_expression (hexpr : isExpression c.type = true) :
    statementCount (n + 2) (c :: r) = statementCount n (past (c :: r)) + 1 := by
  have hexpr : startsExpression c = true := hexpr
  have hlength : (n + 2) / 2 = n / 2 + 1 := by omega
  unfold statementCount
  rw [List.takeWhile_cons_of_pos hexpr, List.dropWhile_cons_of_pos hexpr, List.length_cons, hlength]
  cases r with
  | nil =>
    rw [past, List.dropWhile_cons_of_pos hexpr]
    · dsimp only [List.dropWhile_nil]
      omega
    · exact fun c t r h => by cases h
  | cons t r =>
    rw [past]
    dsimp only
    split
    · omega
    · split_ifs <;> omega

/-- A token is left behind the first one, or the first one itself. -/
theorem past_ne_nil (c : PolycallToken) (r : List PolycallToken) : past (c :: r) ≠ [] := by
  cases r <;> exact List.cons_ne_nil _ _

/-- A round of the loop of `parse_block` stores a statement, and there is one less to store, unless
no node is left. -/
theorem parseStatement_count (h : At tokens state (c :: r) (n + 1)) (hc : c.type ≠ .separator) :
    ∃ stmt state' m s', parseStatement tokens state = (some stmt, state') ∧
      At tokens state' s' m ∧ s' ≠ [] ∧ m ≤ n ∧
      statementCount (n + 1) (c :: r) = statementCount m s' + 1 := by
  cases hexpr : isExpression c.type with
  | false =>
    obtain ⟨state', hparse, h'⟩ := parseStatement_other h hexpr
    refine ⟨_, state', n, _, hparse, h', List.cons_ne_nil _ _, Nat.le_refl n, ?_⟩
    have hother := Bool.eq_false_iff.1 hexpr
    rw [statementCount_other hc hother, statementCount_other hc hother]
  | true =>
    cases n with
    | zero =>
      obtain ⟨state', hparse, h'⟩ := parseStatement_one h
      refine ⟨_, state', 0, _, hparse, h', List.cons_ne_nil _ _, Nat.le_refl 0, ?_⟩
      rw [statementCount_zero, statementCount_one hc]
    | succ n =>
      obtain ⟨state', hparse, h'⟩ := parseStatement_past h hexpr
      exact ⟨_, state', n, _, hparse, h', past_ne_nil c r, Nat.le_succ n,
        statementCount_expression hexpr⟩

/-- A loop that comes to no other state, and stores nothing in this one, stores nothing. -/
theorem not_exists_store {children : List PolycallASTNode}
    (hvisits : ∀ x, VisitsStatements tokens (children, state) x ↔ x = (children, state))
    (hnone : isNot .separator state = true → (parseStatement tokens state).1 = none) :
    ¬∃ x stmt state', VisitsStatements tokens (children, state) x ∧
      isNot .separator x.2 = true ∧ parseStatement tokens x.2 = (some stmt, state') ∧
      x.1.length = children.length + k := by
  rintro ⟨x, stmt, state', hvisit, hcond, hstmt, -⟩
  obtain rfl := (hvisits x).1 hvisit
  cases (hnone hcond).symm.trans (congrArg Prod.fst hstmt)

/-- The `child_count` with which the statements of a body are stored. -/
theorem visits_store_iff (children : List PolycallASTNode) (h : At tokens state s n) (hs : s ≠ []) :
    (∃ x stmt state', VisitsStatements tokens (children, state) x ∧
        isNot .separator x.2 = true ∧ parseStatement tokens x.2 = (some stmt, state') ∧
        x.1.length = children.length + k) ↔ k < statementCount n s := by
  induction n using Nat.strong_induction_on generalizing children state s k with
  | _ n ih =>
    obtain ⟨c, r, rfl⟩ := List.exists_cons_of_ne_nil hs
    by_cases hc : c.type = .separator
    · -- The body is over.
      have hdone : isNot .separator state = false := by
        rw [h.isNot_eq]
        exact decide_eq_false (not_not.2 hc)
      rw [statementCount_separator hc]
      refine iff_of_false (not_exists_store (fun x => visits_iff_of_done hdone) fun hcond => ?_)
        (Nat.not_lt_zero k)
      cases hdone.symm.trans hcond
    · have hcond : isNot .separator state = true := by
        rw [h.isNot_eq]
        exact decide_eq_true hc
      cases n with
      | zero =>
        -- Without a node the loop goes on and changes nothing.
        have hparse := parseStatement_zero h
        have hround := addStatement_settles children hparse
        rw [Option.toList_none, List.append_nil] at hround
        rw [statementCount_zero]
        refine iff_of_false (not_exists_store (fun x => visits_iff_of_fixed hround) fun _ => ?_)
          (Nat.not_lt_zero k)
        rw [hparse]
      | succ n =>
        obtain ⟨stmt, state', m, s', hparse, h', hs', hle, hcount⟩ := parseStatement_count h hc
        have hvisits : ∀ x, VisitsStatements tokens (children, state) x ↔
            x = (children, state) ∨ VisitsStatements tokens (children ++ [stmt], state') x :=
          fun x => visits_iff_of_round ⟨hcond, addStatement_settles children hparse⟩
        have hrest := fun k => ih m (Nat.lt_succ_of_le hle) (children ++ [stmt]) (k := k) h' hs'
        rw [hcount]
        cases k with
        | zero =>
          refine iff_of_true ⟨(children, state), stmt, state', .refl, hcond, hparse, rfl⟩ ?_
          exact Nat.succ_pos _
        | succ k =>
          rw [Nat.succ_lt_succ_iff, ← hrest k]
          refine exists_congr fun x => exists_congr fun stmt' => exists_congr fun state'' => ?_
          rw [hvisits, List.length_append, List.length_singleton,
            Nat.add_assoc, Nat.add_comm 1 k]
          refine and_congr_left fun hx => or_iff_right ?_
          rintro rfl
          have hlength : children.length = children.length + (k + 1) := hx.2.2
          omega

/-! ## Functions and their blocks -/

/-- Behind the head of a function a token is left. -/
theorem Headed.ne_nil (h : Headed n s m q) : q ≠ [] := by
  cases h with
  | header => exact past_ne_nil _ _
  | last => exact List.cons_ne_nil _ _

/-- A function takes a node. -/
theorem Headed.ne_zero (h : Headed n s m q) : n ≠ 0 := by
  cases h <;> exact Nat.succ_ne_zero _

/-- Behind an opening separator a token is left. -/
theorem Opened.ne_nil (h : Opened m q i body) : body ≠ [] := by
  cases h
  exact List.cons_ne_nil _ _

/-- A call comes to `parse_block` in one state at most. -/
theorem CallsBlock.unique {state'' : ParserState} (h : CallsBlock tokens state state')
    (h' : CallsBlock tokens state state'') : state' = state'' := by
  obtain ⟨s₁, s₂, s₃, hname, hnode, hskip, rfl⟩ := h
  obtain ⟨s₁', s₂', s₃', hname', hnode', hskip', rfl⟩ := h'
  obtain rfl : s₁ = s₁' := congrArg Prod.snd (hname.symm.trans hname')
  obtain rfl : s₂ = s₂' := congrArg Prod.snd (hnode.symm.trans hnode')
  rw [hskip.unique hskip']

/-- If the call of `parse_block` returns, so does `parse_function`, with a node. -/
theorem CallsBlock.settles {body : Option PolycallASTNode} {state'' : ParserState}
    (h : CallsBlock tokens state state')
    (hblock : Settles (fun fuel => parseBlock tokens fuel state') (body, state'')) :
    ∃ node, Settles (fun fuel => parseFunction tokens fuel state) (some node, state'') := by
  obtain ⟨s₁, s₂, s₃, hname, hnode, hskip, rfl⟩ := h
  simp only [parseFunction_of_node hname hnode]
  exact ⟨_, hskip.bind (hblock.map _)⟩

/-- If the call of `parse_block` does not return, neither does `parse_function`. -/
theorem CallsBlock.diverges (h : CallsBlock tokens state state')
    (hblock : Diverges (fun fuel => parseBlock tokens fuel state')) :
    Diverges (fun fuel => parseFunction tokens fuel state) := by
  obtain ⟨s₁, s₂, s₃, hname, hnode, hskip, rfl⟩ := h
  simp only [parseFunction_of_node hname hnode]
  exact hskip.bind_diverges (hblock.map _)

/-- What `Headed` describes happens. -/
theorem Headed.callsBlock (hheaded : Headed n s m q) (h : At tokens state s n) :
    ∃ state', CallsBlock tokens state state' ∧ At tokens state' q m := by
  cases hheaded with
  | @header _ c d header q hc hheader hd =>
    obtain ⟨t, r, htail⟩ := exists_cons_append header d q
    rw [htail] at h
    obtain ⟨s₁, hadvance, h₁⟩ := h.advance_cons
    obtain ⟨s₂, hallocate, h₂⟩ := h₁.allocate_succ
    rw [← htail] at h₂
    obtain ⟨s₃, hskip, h₃⟩ := skipHeader_settles hheader hd h₂
    exact ⟨_, ⟨s₁, s₂, s₃, (h.expect_eq hc).trans hadvance, hallocate, hskip, rfl⟩,
      h₃.expect_past hd⟩
  | last hc hd =>
    obtain ⟨s₁, hadvance, h₁⟩ := h.advance_cons
    obtain ⟨s₂, hallocate, h₂⟩ := h₁.allocate_succ
    obtain ⟨s₃, hskip, h₃⟩ := skipHeader_last hd h₂
    exact ⟨_, ⟨s₁, s₂, s₃, (h.expect_eq hc).trans hadvance, hallocate, hskip, rfl⟩,
      h₃.expect_past hd⟩

/-- Where the tokens are not as `Headed` describes, `parse_function` does not come to `parse_block`
and makes no node. -/
theorem headed_or (h : At tokens state s n) (hs : s ≠ []) :
    (∃ m q, Headed n s m q) ∨ (∀ state', ¬CallsBlock tokens state state') ∧
      ∀ node state',
        ¬Settles (fun fuel => parseFunction tokens fuel state) (some node, state') := by
  obtain ⟨c, r, rfl⟩ := List.exists_cons_of_ne_nil hs
  by_cases hrefused : c.type ≠ .identifier ∨ r = []
  · -- The name is missing, or nothing is behind it.
    have hexpect : expectToken tokens state .identifier = (false, state) := by
      rcases hrefused with hc | rfl
      · exact h.expect_ne hc
      · exact h.expect_nil _
    refine .inr ⟨?_, fun node state' hsettles => ?_⟩
    · rintro state' ⟨s₁, s₂, s₃, hname, -⟩
      cases hexpect.symm.trans hname
    · cases hsettles.unique (settles_of_forall (parseFunction_refused h hrefused))
  rw [not_or, not_not] at hrefused
  obtain ⟨hc, hr⟩ := hrefused
  obtain ⟨t, r, rfl⟩ := List.exists_cons_of_ne_nil hr
  -- The name is consumed, and then the node is taken.
  obtain ⟨s₁, hadvance, h₁⟩ := h.advance_cons
  have hexpect := (h.expect_eq hc).trans hadvance
  cases n with
  | zero =>
    refine .inr ⟨?_, fun node state' hsettles => ?_⟩
    · rintro state' ⟨s₁', s₂, s₃, hname, hnode, -⟩
      obtain rfl : s₁ = s₁' := congrArg Prod.snd (hexpect.symm.trans hname)
      cases h₁.allocate_zero.symm.trans hnode
    · obtain ⟨state'', hunstored, -⟩ := parseFunction_unstored h hc
      cases hsettles.unique (settles_of_forall hunstored)
  | succ n =>
    obtain ⟨s₂, hallocate, h₂⟩ := h₁.allocate_succ
    rcases skipHeader_cases h₂ with hskip | ⟨d, q, s₃, hd, -, -, hheader⟩
    · -- The header does not end.
      refine .inr ⟨?_, fun node state' hsettles => hsettles.not_diverges ?_⟩
      · rintro state' ⟨s₁', s₂', s₃, hname, hnode, hsettles, -⟩
        obtain rfl : s₁ = s₁' := congrArg Prod.snd (hexpect.symm.trans hname)
        obtain rfl : s₂ = s₂' := congrArg Prod.snd (hallocate.symm.trans hnode)
        exact hsettles.not_diverges hskip
      · simp only [parseFunction_of_node hexpect hallocate]
        exact hskip.bind
    · rcases hheader with ⟨heq, rfl⟩ | ⟨header, hheader, heq⟩
      · obtain ⟨rfl, rfl⟩ := List.cons.inj heq
        exact .inl ⟨n, _, .last hc hd⟩
      · rw [heq]
        exact .inl ⟨n, _, .header hc hheader hd⟩

/-- A call that comes to `parse_block` is behind a function up to its body. -/
theorem CallsBlock.headed (hcalls : CallsBlock tokens state state') (h : At tokens state s n)
    (hs : s ≠ []) : ∃ m q, Headed n s m q ∧ At tokens state' q m := by
  rcases headed_or h hs with ⟨m, q, hheaded⟩ | ⟨hnone, -⟩
  · obtain ⟨state'', hcalls', h'⟩ := hheaded.callsBlock h
    rw [hcalls.unique hcalls']
    exact ⟨m, q, hheaded, h'⟩
  · exact absurd hcalls (hnone state')

/-- What `Opened` describes happens. -/
theorem Opened.opensBlock (hopened : Opened m q i body) (h : At tokens state q m) :
    ∃ state', OpensBlock tokens state state' ∧ At tokens state' body i := by
  cases hopened with
  | block hu =>
    obtain ⟨s₁, hadvance, h₁⟩ := h.advance_cons
    obtain ⟨s₂, hallocate, h₂⟩ := h₁.allocate_succ
    exact ⟨s₂, ⟨s₁, (h.expect_eq hu).trans hadvance, hallocate⟩, h₂⟩

/-- A block is opened only there. -/
theorem OpensBlock.opened (hopens : OpensBlock tokens state state') (h : At tokens state q m)
    (hq : q ≠ []) : ∃ i body, Opened m q i body ∧ At tokens state' body i := by
  obtain ⟨s₁, hexpect, hnode⟩ := hopens
  obtain ⟨u, r, rfl⟩ := List.exists_cons_of_ne_nil hq
  by_cases hu : u.type = .separator
  · cases r with
    | nil => cases (h.expect_nil _).symm.trans hexpect
    | cons t r =>
      obtain ⟨s₁', hadvance, h₁⟩ := h.advance_cons
      obtain rfl : s₁' = s₁ :=
        congrArg Prod.snd (((h.expect_eq hu).trans hadvance).symm.trans hexpect)
      cases m with
      | zero => cases h₁.allocate_zero.symm.trans hnode
      | succ m =>
        obtain ⟨s₂, hallocate, h₂⟩ := h₁.allocate_succ
        obtain rfl : s₂ = state' := congrArg Prod.snd (hallocate.symm.trans hnode)
        exact ⟨m, t :: r, .block hu, h₂⟩
  · cases (h.expect_ne hu).symm.trans hexpect

/-- A body that does not end is never left. -/
theorem Opened.diverges (hopened : Opened m q i body) (h : At tokens state q m)
    (hnot : ¬Closed i body) : Diverges (fun fuel => parseBlock tokens fuel state) := by
  cases hopened with
  | block hu =>
    refine parseBlock_diverges h hu fun exprs d q k hexprs hd heq hi => ?_
    exact hnot ⟨exprs, d, q, hexprs, hd, heq, by omega⟩

/-- `parse_block` returns where the body that it opens, if any, ends. -/
theorem parseBlock_returns_iff (h : At tokens state q m) (hq : q ≠ []) :
    (∃ body state', Settles (fun fuel => parseBlock tokens fuel state) (body, state')) ↔
      ∀ i body, Opened m q i body → Closed i body := by
  obtain ⟨u, r, rfl⟩ := List.exists_cons_of_ne_nil hq
  constructor
  · rintro ⟨block, state', hsettles⟩ i body hopened
    by_contra hnot
    exact hsettles.not_diverges (hopened.diverges h hnot)
  · intro hclosed
    by_cases habsent : u.type ≠ .separator ∨ r = []
    · exact ⟨none, state, settles_of_forall (parseBlock_absent h habsent)⟩
    rw [not_or, not_not] at habsent
    obtain ⟨hu, hr⟩ := habsent
    obtain ⟨t, r, rfl⟩ := List.exists_cons_of_ne_nil hr
    cases m with
    | zero =>
      obtain ⟨state', hunstored, -⟩ := parseBlock_unstored h hu
      exact ⟨none, state', settles_of_forall hunstored⟩
    | succ m =>
      obtain ⟨exprs, e, q, hexprs, he, heq, hle⟩ := hclosed m (t :: r) (.block hu)
      obtain ⟨k, rfl⟩ := Nat.exists_eq_add_of_le' hle
      rw [heq] at h
      obtain ⟨state', hblock, -⟩ := parseBlock_settles hexprs hu he h
      exact ⟨_, state', hblock⟩

/-- A call of `parse_function` makes a node and returns. -/
theorem parseFunction_returns_iff (h : At tokens state s n) (hs : s ≠ []) :
    (∃ node state', Settles (fun fuel => parseFunction tokens fuel state) (some node, state')) ↔
      ∃ m q, Headed n s m q ∧ ∀ i body, Opened m q i body → Closed i body := by
  constructor
  · rintro ⟨node, state', hsettles⟩
    rcases headed_or h hs with ⟨m, q, hheaded⟩ | ⟨-, hnone⟩
    · obtain ⟨state'', hcalls, h'⟩ := hheaded.callsBlock h
      refine ⟨m, q, hheaded, fun i body hopened => ?_⟩
      by_contra hnot
      exact hsettles.not_diverges (hcalls.diverges (hopened.diverges h' hnot))
    · exact absurd hsettles (hnone node state')
  · rintro ⟨m, q, hheaded, hclosed⟩
    obtain ⟨state'', hcalls, h'⟩ := hheaded.callsBlock h
    obtain ⟨body, state', hblock⟩ := (parseBlock_returns_iff h' hheaded.ne_nil).2 hclosed
    obtain ⟨node, hsettles⟩ := hcalls.settles hblock
    exact ⟨node, state', hsettles⟩

/-! ## The functions of a program -/

/-- A function does not add to the nodes left. -/
theorem FunctionStep.ne_zero {n' : ℕ} {s' : List PolycallToken} (h : FunctionStep n s n' s')
    (hn : n' ≠ 0) : n ≠ 0 := by
  cases h with
  | unstored => exact absurd rfl hn
  | stored => exact Nat.succ_ne_zero _

/-- While nodes are left, every function that is consumed is stored. -/
theorem Functions.visits {s' : List PolycallToken} (hfunctions : Functions k n s m s')
    (h : At tokens state s n) (hm : m ≠ 0) :
    ∃ x, VisitsFunctions tokens ([], state) x ∧ At tokens x.2 s' m ∧ x.1.length = k := by
  induction hfunctions with
  | none => exact ⟨([], state), .refl, h, rfl⟩
  | more _ hstep ih =>
    obtain ⟨⟨children, state₁⟩, hvisit, h₁, rfl⟩ := ih h (hstep.ne_zero hm)
    obtain ⟨n', hn'⟩ := Nat.exists_eq_succ_of_ne_zero (hstep.ne_zero hm)
    subst hn'
    obtain ⟨node, state₂, hnode, h₂⟩ := parseFunction_of_stored hstep h₁
    obtain ⟨c, t, r, rfl, hc⟩ := hstep.exists_cons
    have hcond : isNot .eof state₁ = true := by
      rw [At.isNot_eq h₁, hc]
      rfl
    refine ⟨(children ++ [node], state₂), hvisit.tail ⟨hcond, addFunction_settles children hnode⟩,
      h₂, ?_⟩
    rw [List.length_append, List.length_singleton]

/-- The loop of `parse_tokens` is behind some functions, which are stored while nodes are left, or
at tokens at which it stays. -/
theorem visitsFunctions_cases {x : List PolycallASTNode × ParserState}
    (hvisit : VisitsFunctions tokens ([], state) x) (h : At tokens state s n) (hs : s ≠ []) :
    (∃ k m s', Functions k n s m s' ∧ s' ≠ [] ∧ At tokens x.2 s' m ∧ (m ≠ 0 → x.1.length = k)) ∨
      ∃ m s', At tokens x.2 s' m ∧ Dead s' := by
  -- The induction is on the rounds: each parses one function, or changes nothing.
  induction hvisit with
  | refl => exact .inl ⟨0, n, s, .none, hs, h, fun _ => rfl⟩
  | @tail x y _ hround ih =>
    obtain ⟨hcond, hbody⟩ := hround
    obtain ⟨children, state₁⟩ := x
    rcases ih with ⟨k, m, s', hfunctions, hs', h₁, hlength⟩ | ⟨m, s', h₁, hdead⟩
    · by_cases hstep : ∃ m' s'', FunctionStep m s' m' s''
      · obtain ⟨m', s'', hstep⟩ := hstep
        refine .inl ⟨k + 1, m', s'', .more hfunctions hstep, hstep.ne_nil, ?_⟩
        cases m with
        | zero =>
          obtain ⟨node, state₂, hnode, h₂⟩ := parseFunction_of_step hstep h₁
          rw [hbody.unique (addFunction_settles children hnode)]
          exact ⟨h₂, fun hm => absurd rfl (hstep.ne_zero hm)⟩
        | succ m =>
          obtain ⟨node, state₂, hnode, h₂⟩ := parseFunction_of_stored hstep h₁
          rw [hbody.unique (addFunction_settles children hnode)]
          refine ⟨h₂, fun _ => ?_⟩
          rw [← hlength (Nat.succ_ne_zero m), List.length_append]
          rfl
      · obtain ⟨c, r, rfl⟩ := List.exists_cons_of_ne_nil hs'
        -- The loop has gone on here, so the token is not the end.
        have heof : c.type ≠ .eof := by
          have hnot : isNot .eof state₁ = true := hcond
          rw [h₁.isNot_eq] at hnot
          exact of_decide_eq_true hnot
        rcases parseFunction_of_not_step h₁ heof fun m' s'' h => hstep ⟨m', s'', h⟩ with
          hdiverges | ⟨node, state₂, s'', m', hnode, h₂, hdead⟩
        · exact absurd (hdiverges.map _) hbody.not_diverges
        · rw [hbody.unique (addFunction_settles children hnode)]
          exact .inr ⟨m', s'', h₂, hdead⟩
    · -- Nothing changes there.
      obtain ⟨c, r, rfl, -, hrefused⟩ := id hdead
      have hnode := settles_of_forall (parseFunction_refused h₁ hrefused)
      rw [hbody.unique (addFunction_settles children hnode)]
      exact .inr ⟨m, _, h₁, hdead⟩

/-- At tokens at which `parse_function` always fails no function is headed. -/
theorem Dead.not_headed (hdead : Dead s) : ¬Headed n s m q := by
  obtain ⟨c, r, rfl, -, hrefused⟩ := hdead
  intro hheaded
  cases hheaded with
  | @header _ _ d header q hc =>
    rcases hrefused with hne | hnil
    · exact hne hc
    · exact List.append_ne_nil_of_right_ne_nil header (List.cons_ne_nil d q) hnil
  | last hc =>
    rcases hrefused with hne | hnil
    · exact hne hc
    · cases hnil

/-! ## The stores -/

variable {token : PolycallToken} {rest : List PolycallToken}

/-- The loop of `parse_tokens` starts with the first token in front once more. -/
theorem inProgram_iff {x : List PolycallASTNode × ParserState} :
    InProgram (token :: rest) (n + 1) x ↔
      ∃ state, allocateNode (initialState (token :: rest) (n + 1)) = (true, state) ∧
        At (token :: rest) state (token :: token :: rest) n ∧
        VisitsFunctions (token :: rest) ([], state) x ∧ isNot .eof x.2 = true := by
  have hinitial : At (token :: rest) (initialState (token :: rest) (n + 1))
      (token :: token :: rest) (n + 1) := ⟨rfl, rfl, (Nat.zero_add _).symm⟩
  obtain ⟨state, hallocate, h⟩ := hinitial.allocate_succ
  constructor
  · rintro ⟨state', hallocate', hvisit, hcond⟩
    obtain rfl : state = state' := congrArg Prod.snd (hallocate.symm.trans hallocate')
    exact ⟨state, hallocate, h, hvisit, hcond⟩
  · rintro ⟨state', hallocate', -, hvisit, hcond⟩
    exact ⟨state', hallocate', hvisit, hcond⟩

/-- Where a function is headed, the loop of `parse_tokens` comes to it behind `k` functions. -/
theorem inProgram_of_functions (hfunctions : Functions k n (token :: token :: rest) m s)
    (hheaded : Headed m s i q) :
    ∃ x, InProgram (token :: rest) (n + 1) x ∧ At (token :: rest) x.2 s m ∧ x.1.length = k := by
  have hinitial : At (token :: rest) (initialState (token :: rest) (n + 1))
      (token :: token :: rest) (n + 1) := ⟨rfl, rfl, (Nat.zero_add _).symm⟩
  obtain ⟨state, hallocate, h⟩ := hinitial.allocate_succ
  obtain ⟨x, hvisit, hx, hlength⟩ := hfunctions.visits h hheaded.ne_zero
  have hcond : isNot .eof x.2 = true := by
    cases hheaded with
    | header hc =>
      rw [hx.isNot_eq, hc]
      rfl
    | last hc =>
      rw [hx.isNot_eq, hc]
      rfl
  exact ⟨x, ⟨state, hallocate, hvisit, hcond⟩, hx, hlength⟩

/-- Where the loop of `parse_tokens` comes to a function that is headed, it is behind as many
functions as it has stored. -/
theorem functions_of_inProgram {x : List PolycallASTNode × ParserState}
    (hx : InProgram (token :: rest) (n + 1) x) :
    (∃ k m s, Functions k n (token :: token :: rest) m s ∧ s ≠ [] ∧ At (token :: rest) x.2 s m ∧
      ∀ i q, Headed m s i q → x.1.length = k) ∨
      ∃ m s, At (token :: rest) x.2 s m ∧ Dead s := by
  obtain ⟨state, -, h, hvisit, -⟩ := inProgram_iff.1 hx
  refine (visitsFunctions_cases hvisit h (List.cons_ne_nil _ _)).imp_left ?_
  rintro ⟨k, m, s, hfunctions, hs, hat, hlength⟩
  exact ⟨k, m, s, hfunctions, hs, hat, fun i q hheaded => hlength hheaded.ne_zero⟩

/-- Where the parser is stuck there is a token. -/
theorem Dead.ne_nil (h : Dead s) : s ≠ [] := by
  obtain ⟨c, r, rfl, -⟩ := h
  exact List.cons_ne_nil _ _

/-- The functions that are stored. -/
theorem stores_function_iff : Stores (token :: rest) (n + 1) .program k ↔
    ∃ m s i q, Functions k n (token :: token :: rest) m s ∧ Headed m s i q ∧
      ∀ j body, Opened i q j body → Closed j body := by
  constructor
  · rintro (⟨hx, hnode⟩)
    rcases functions_of_inProgram hx with ⟨k, m, s, hfunctions, hs, h, hlength⟩ | ⟨m, s, h, hdead⟩
    · obtain ⟨i, q, hheaded, hclosed⟩ := (parseFunction_returns_iff h hs).1 ⟨_, _, hnode⟩
      rw [hlength i q hheaded]
      exact ⟨m, s, i, q, hfunctions, hheaded, hclosed⟩
    · obtain ⟨i, q, hheaded, -⟩ := (parseFunction_returns_iff h hdead.ne_nil).1 ⟨_, _, hnode⟩
      exact absurd hheaded hdead.not_headed
  · rintro ⟨m, s, i, q, hfunctions, hheaded, hclosed⟩
    obtain ⟨x, hx, h, rfl⟩ := inProgram_of_functions hfunctions hheaded
    have hs : s ≠ [] := by cases hheaded <;> exact List.cons_ne_nil _ _
    obtain ⟨node, state', hnode⟩ := (parseFunction_returns_iff h hs).2 ⟨i, q, hheaded, hclosed⟩
    exact .function hx hnode

/-- The statements that are stored. -/
theorem stores_statement_iff : Stores (token :: rest) (n + 1) .block k ↔
    ∃ l m s i q j body, Functions l n (token :: token :: rest) m s ∧ Headed m s i q ∧
      Opened i q j body ∧ k < statementCount j body := by
  constructor
  · rintro (_ | ⟨hx, hcalls, hopens, ⟨hvisit, hcond⟩, hstmt⟩)
    rcases functions_of_inProgram hx with ⟨l, m, s, hfunctions, hs, h, -⟩ | ⟨m, s, h, hdead⟩
    · obtain ⟨i, q, hheaded, h₁⟩ := hcalls.headed h hs
      obtain ⟨j, body, hopened, h₂⟩ := hopens.opened h₁ hheaded.ne_nil
      have hlt := (visits_store_iff [] h₂ hopened.ne_nil).1
        ⟨_, _, _, hvisit, hcond, hstmt, (Nat.zero_add _).symm⟩
      exact ⟨l, m, s, i, q, j, body, hfunctions, hheaded, hopened, hlt⟩
    · obtain ⟨i, q, hheaded, -⟩ := hcalls.headed h hdead.ne_nil
      exact absurd hheaded hdead.not_headed
  · rintro ⟨l, m, s, i, q, j, body, hfunctions, hheaded, hopened, hlt⟩
    obtain ⟨x, hx, h, -⟩ := inProgram_of_functions hfunctions hheaded
    obtain ⟨called, hcalls, h₁⟩ := hheaded.callsBlock h
    obtain ⟨opened, hopens, h₂⟩ := hopened.opensBlock h₁
    obtain ⟨t, stmt, state', hvisit, hcond, hstmt, hlength⟩ :=
      (visits_store_iff [] h₂ hopened.ne_nil).2 hlt
    rw [List.length_nil, Nat.zero_add] at hlength
    rw [← hlength]
    exact .statement hx hcalls hopens ⟨hvisit, hcond⟩ hstmt

/-- A body that starts with a token that is never consumed gets a statement for every node. -/
theorem stores_of_unconsumed {a b c d : PolycallToken} (ha : a.type = .identifier)
    (hb : b.type = .separator) (hc : c.type = .separator) (hd : d.type ≠ .separator)
    (hexpr : ¬ isExpression d.type = true) (hk : k < n) :
    Stores (a :: b :: c :: d :: r) (n + 3) .block k := by
  have hheader : Header [a] := ⟨[a], by simp [ha], .inl ⟨rfl, List.cons_ne_nil _ _⟩⟩
  have hheaded : Headed (n + 2) (a :: ([a] ++ b :: c :: d :: r)) (n + 1) (c :: d :: r) :=
    .header ha hheader hb
  refine stores_statement_iff.2 ⟨0, _, _, _, _, _, _, .none, hheaded, .block hc, ?_⟩
  rwa [statementCount_other hd hexpr]

/-- Without a node for the program, the loop of `parse_tokens` is not reached. -/
theorem not_inProgram_zero (x : List PolycallASTNode × ParserState) : ¬InProgram tokens 0 x := by
  rintro ⟨state, hallocate, -⟩
  have hnone : allocateNode (initialState tokens 0) = (false, initialState tokens 0) := rfl
  cases hnone.symm.trans hallocate

/-- Without a current token no loop runs. -/
theorem not_inProgram_nil (x : List PolycallASTNode × ParserState) : ¬InProgram [] (n + 1) x := by
  rintro ⟨state, hallocate, hvisit, hcond⟩
  have hallocated : allocateNode (initialState [] (n + 1)) =
      (true, ⟨none, 0, ⟨n + 1, 1, true⟩, []⟩) := rfl
  obtain rfl := congrArg Prod.snd (hallocated.symm.trans hallocate)
  have hvisits : VisitsFunctions [] ([], ⟨none, 0, ⟨n + 1, 1, true⟩, []⟩) x ↔
      x = ([], ⟨none, 0, ⟨n + 1, 1, true⟩, []⟩) := visits_iff_of_done rfl
  rw [hvisits.1 hvisit] at hcond
  cases hcond

/-- Where the loop of `parse_tokens` does not go on, nothing is stored. -/
theorem storesInSlots_of_not_inProgram {maxNodes : ℕ} (h : ∀ x, ¬InProgram tokens maxNodes x) :
    StoresInSlots tokens maxNodes := by
  rintro type count (⟨hx, -⟩ | ⟨hx, -⟩)
  · exact absurd hx (h _)
  · exact absurd hx (h _)

/-- The children stay in the slots exactly where the tokens, with the first one in front once more,
do not ask for more. -/
theorem storesInSlots_iff (tokens : List PolycallToken) (maxNodes : ℕ) :
    StoresInSlots tokens maxNodes ↔
      maxNodes = 0 ∨ ∀ token rest, tokens = token :: rest →
        Fits (maxNodes - 1) (token :: tokens) := by
  cases maxNodes with
  | zero => exact iff_of_true (storesInSlots_of_not_inProgram not_inProgram_zero) (.inl rfl)
  | succ n =>
    rw [or_iff_right (Nat.succ_ne_zero n), Nat.add_sub_cancel]
    cases tokens with
    | nil =>
      refine iff_of_true (storesInSlots_of_not_inProgram not_inProgram_nil) ?_
      exact fun token rest hnil => by cases hnil
    | cons token rest =>
      constructor
      · rintro h token' rest' heq
        obtain ⟨rfl, rfl⟩ := List.cons.inj heq
        -- Too many functions or statements would be stored.
        refine ⟨fun k m t b q hfunctions hheaded hclosed => ?_,
          fun k m t b q i body hfunctions hheaded hopened => ?_⟩
        · exact h _ _ (stores_function_iff.2 ⟨m, t, b, q, hfunctions, hheaded, hclosed⟩)
        · by_contra hlt
          have hstores := stores_statement_iff.2
            ⟨k, m, t, b, q, i, body, hfunctions, hheaded, hopened, not_le.1 hlt⟩
          exact lt_irrefl _ (h _ _ hstores)
      · intro hfits type count hstores
        have hfits := hfits token rest rfl
        -- A child is stored in the program node or in a block.
        cases htype : type with
        | program =>
          rw [htype] at hstores
          obtain ⟨m, t, b, q, hfunctions, hheaded, hclosed⟩ := stores_function_iff.1 hstores
          exact hfits.functions count m t b q hfunctions hheaded hclosed
        | block =>
          rw [htype] at hstores
          obtain ⟨k, m, t, b, q, i, body, hfunctions, hheaded, hopened, hlt⟩ :=
            stores_statement_iff.1 hstores
          exact hlt.trans_le (hfits.statements k m t b q i body hfunctions hheaded hopened)
        | _ =>
          rw [htype] at hstores
          cases hstores

/-- A function whose body is an operator. -/
theorem operator_overflows_block : ¬StoresInSlots [⟨.none, .identifier, 0, 1, 1, 1⟩,
    ⟨.none, .separator, 0, 1, 2, 1⟩, ⟨.none, .separator, 0, 1, 3, 1⟩,
    ⟨.none, .operator, 0, 1, 4, 1⟩, ⟨.none, .eof, 0, 1, 5, 0⟩] 65536 := by
  intro h
  have hlt := h .block 16
    (stores_of_unconsumed rfl rfl rfl (by decide) (by decide) (by decide))
  exact absurd hlt (by decide)

end LibPolyCall.Parser
