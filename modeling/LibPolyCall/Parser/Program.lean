import LibPolyCall.Parser.Termination

/-!
# The tree of a program

A program is a sequence of functions, each a name, its parameters and its body between separators.
`parse_tokens` should build a tree with one function node for each, and consume every token once.
But its cursor is behind from the start: `advance_token` makes the first token the current one a
second time. The first function already loses its body, or an empty block takes its place and the
parser stays at the closing separator for ever (`parseFunction_first`). Besides, the nodes lie in a
pool that `parse_tokens` frees before it returns.
-/

namespace LibPolyCall.Parser

open Tokenizer Fuel

/-- The tokens of a function: a name, the parameters between two separators, and a body of
expressions between two more. -/
structure FunctionSource where
  name : PolycallToken
  openParams : PolycallToken
  params : List PolycallToken
  closeParams : PolycallToken
  openBody : PolycallToken
  body : List PolycallToken
  closeBody : PolycallToken
  name_type : name.type = .identifier
  openParams_type : openParams.type = .separator
  params_type : ∀ p ∈ params, p.type = .identifier
  closeParams_type : closeParams.type = .separator
  openBody_type : openBody.type = .separator
  body_type : ∀ e ∈ body, isExpression e.type = true
  closeBody_type : closeBody.type = .separator

/-- The tokens of the function in order. -/
def FunctionSource.tokens (f : FunctionSource) : List PolycallToken :=
  f.name :: f.openParams :: (f.params ++ f.closeParams :: f.openBody :: (f.body ++ [f.closeBody]))

/-- The node of the function: its name, and one block with a statement for each expression. -/
def FunctionSource.node (f : FunctionSource) : PolycallASTNode :=
  .mk .function f.name.value [blockOf f.body]

/-- The tree of a program. -/
def programNode (fs : List FunctionSource) : PolycallASTNode :=
  .mk .program .none (fs.map FunctionSource.node)

/-- The nodes that the tree of a program takes. -/
def nodeCount (fs : List FunctionSource) : ℕ :=
  1 + (fs.map fun f => 2 + 2 * f.body.length).sum

/-- `parse_tokens` returns a tree, its nodes are as `nodes` wants them, and every token in front of
the `EOF` token was consumed once, in order. -/
def Builds (fs : List FunctionSource) (eof : PolycallToken) (maxNodes : ℕ)
    (nodes : Option PolycallASTNode → NodePool → Prop) : Prop :=
  let functions := fs.flatMap FunctionSource.tokens
  ∃ fuel ast pool state, parseTokens (functions ++ [eof]) maxNodes fuel = some (ast, pool) ∧
    parseProgram (functions ++ [eof]) maxNodes fuel = some (ast.root, state) ∧
    state.consumed = List.range functions.length ∧ nodes ast.root pool

/-- The tree is that of the program, and its nodes are still allocated. -/
def BuildsTree (fs : List FunctionSource) (eof : PolycallToken) (maxNodes : ℕ) : Prop :=
  Builds fs eof maxNodes fun root pool => pool.allocated = true ∧ root = some (programNode fs)

/-- The tree was that of the program before its nodes were freed. -/
def BuildsTreeInPool (fs : List FunctionSource) (eof : PolycallToken) (maxNodes : ℕ) : Prop :=
  Builds fs eof maxNodes fun root _ => root = some (programNode fs)

/-- The pool of a tree that `parse_tokens` returns is freed. -/
theorem allocated_parseTokens {tokens : List PolycallToken} {maxNodes fuel : ℕ}
    {ast : PolycallAST ℕ} {pool : NodePool}
    (h : parseTokens tokens maxNodes fuel = some (ast, pool)) :
    pool.allocated = false := by
  obtain ⟨result, -, heq⟩ := Option.map_eq_some_iff.1 h
  rw [← (Prod.mk.inj heq).2]
  rfl

/-- No tree that is returned has its nodes allocated. -/
theorem not_buildsTree (fs : List FunctionSource) (eof : PolycallToken) (maxNodes : ℕ) :
    ¬BuildsTree fs eof maxNodes := by
  rintro ⟨fuel, ast, pool, state, hparse, -, -, hallocated, -⟩
  rw [allocated_parseTokens hparse] at hallocated
  cases hallocated

variable {tokens : List PolycallToken} {state : ParserState} {n : ℕ}

/-- The function that is parsed first is the first child, and the parser goes on behind it. -/
theorem parseFunctions_first {node : PolycallASTNode} {state' state'' : ParserState}
    {children : List PolycallASTNode} {fuel : ℕ} (hcond : isNot .eof state = true)
    (hfunction : Settles (fun fuel => parseFunction tokens fuel state) (some node, state'))
    (h : parseFunctions tokens fuel ([], state) = some (children, state'')) :
    (∃ more, children = node :: more) ∧
      ∃ fuel, parseFunctions tokens fuel ([node], state') = some (children, state'') := by
  obtain ⟨fuel', hrest⟩ := @loop_first _ (fun s : List PolycallASTNode × ParserState =>
    isNot .eof s.2) (addFunction tokens) _ _ _ hcond (addFunction_settles [] hfunction) _ h
  refine ⟨?_, fuel', hrest⟩
  refine loop_keeps (fun x => ∃ more, x.1 = node :: more) ?_ ⟨[], rfl⟩ hrest
  -- A round adds its function behind the others.
  rintro fuel ⟨children, state⟩ s' ⟨more, rfl⟩ hround
  obtain ⟨⟨node', state'⟩, -, rfl⟩ := Option.map_eq_some_iff.1 hround
  exact ⟨more ++ node'.toList, List.cons_append⟩

/-- What becomes of the first function: without its body when it has parameters, else with an empty
block, and the parser is at what should be the body. -/
theorem parseFunction_first (f : FunctionSource) {r : List PolycallToken}
    (h : At tokens state (f.name :: (f.tokens ++ r)) (n + 2)) :
    (f.params ≠ [] ∧ ∃ state', Settles (fun fuel => parseFunction tokens fuel state)
        (some (.mk .function f.name.value []), state')) ∨
      f.params = [] ∧ ∃ state', Settles (fun fuel => parseFunction tokens fuel state)
          (some (.mk .function f.name.value [blockOf []]), state') ∧
        At tokens state' (f.body ++ f.closeBody :: r) n := by
  have hheader : Header [f.name] := by
    refine ⟨[f.name], ?_, .inl ⟨rfl, List.cons_ne_nil _ _⟩⟩
    simp [f.name_type]
  have hstream : f.name :: (f.tokens ++ r) = f.name :: ([f.name] ++ f.openParams ::
      (f.params ++ f.closeParams :: f.openBody :: (f.body ++ f.closeBody :: r))) := by
    simp [FunctionSource.tokens]
  rw [hstream] at h
  obtain ⟨state₁, value, h₁, hvalue, hbody⟩ :=
    parseFunction_headed (n := n + 1) f.name_type hheader f.openParams_type h
  obtain rfl : f.name.value = value := Option.some.inj hvalue
  cases hparams : f.params with
  | cons p params =>
    rw [hparams] at h₁
    have hp : p.type ≠ .separator := by
      rw [f.params_type p (hparams ▸ List.mem_cons_self)]
      decide
    -- The separator behind the header is the one that opens the parameters.
    have hblock := settles_of_forall (parseBlock_absent h₁ (.inl hp))
    exact .inl ⟨List.cons_ne_nil _ _, state₁, hbody none state₁ hblock⟩
  | nil =>
    rw [hparams] at h₁
    have hnone : ∀ e ∈ ([] : List PolycallToken), isExpression e.type = true := by simp
    obtain ⟨state', hblock, h'⟩ :=
      parseBlock_settles (n := n) hnone f.closeParams_type f.openBody_type h₁
    refine .inr ⟨rfl, state', hbody _ state' hblock, ?_⟩
    obtain ⟨t, r', htail⟩ := exists_cons_append f.body f.closeBody r
    rw [htail] at h' ⊢
    exact h'

/-- No program with a function is parsed as it should be, whatever the number of nodes. -/
theorem not_buildsTreeInPool_cons (f : FunctionSource) (fs : List FunctionSource)
    (eof : PolycallToken) {maxNodes : ℕ} (hnodes : nodeCount (f :: fs) ≤ maxNodes) :
    ¬BuildsTreeInPool (f :: fs) eof maxNodes := by
  rintro ⟨fuel, ast, pool, state, -, hprogram, -, hroot⟩
  obtain ⟨n, rfl⟩ : ∃ n, maxNodes = n + 2 + 1 := by
    simp only [nodeCount, List.map_cons, List.sum_cons] at hnodes
    have hthree : 2 + 1 ≤ maxNodes := by omega
    exact Nat.exists_eq_add_of_le' hthree
  obtain ⟨r, htokens⟩ : ∃ r, (f :: fs).flatMap FunctionSource.tokens ++ [eof] = f.tokens ++ r := by
    rw [List.flatMap_cons, List.append_assoc]
    exact ⟨_, rfl⟩
  rw [htokens] at hprogram
  obtain ⟨state₀, h₀, heq⟩ := parseProgram_eq f.name
    (f.openParams :: (f.params ++ f.closeParams :: f.openBody :: (f.body ++ [f.closeBody])) ++ r)
    (n + 2)
  obtain ⟨⟨children, state'⟩, hloop, hresult⟩ :=
    Option.map_eq_some_iff.1 ((heq fuel).symm.trans hprogram)
  have hchildren : children = (f :: fs).map FunctionSource.node := by
    have hsome := (Prod.mk.inj hresult).1.trans hroot
    exact (PolycallASTNode.mk.inj (Option.some.inj hsome)).2.2
  have hcond : isNot .eof state₀ = true := by
    rw [h₀.isNot_eq, f.name_type]
    rfl
  rcases parseFunction_first f h₀ with ⟨-, state₁, hfirst⟩ | ⟨-, state₁, hfirst, h₁⟩
  · -- The node of the first function has no block.
    obtain ⟨⟨more, rfl⟩, -⟩ := parseFunctions_first hcond hfirst hloop
    have hnode := (List.cons.inj hchildren).1
    exact List.cons_ne_nil _ _ (PolycallASTNode.mk.inj hnode).2.2.symm
  · obtain ⟨⟨more, rfl⟩, fuel', hrest⟩ := parseFunctions_first hcond hfirst hloop
    have hblock := (PolycallASTNode.mk.inj (List.cons.inj hchildren).1).2.2
    have hbody : f.body = [] := by
      have hstatements := (PolycallASTNode.mk.inj (List.cons.inj hblock).1).2.2
      exact List.map_eq_nil_iff.1 hstatements.symm
    -- The parser is at the closing separator, where it stays.
    have hstream : f.body ++ f.closeBody :: r = f.closeBody :: r := by rw [hbody, List.nil_append]
    rw [hstream] at h₁
    have hdead : Dead (f.closeBody :: r) :=
      ⟨_, _, rfl, by simp [f.closeBody_type], .inl (by simp [f.closeBody_type])⟩
    have hdiverges := parseFunctions_of_not_ends (List.cons_ne_nil _ _) (not_ends_of_dead hdead)
      [.mk .function f.name.value [blockOf []]] h₁
    cases hrest.symm.trans (hdiverges fuel')

/-- A program without functions is parsed. -/
theorem buildsTreeInPool_nil (eof : PolycallToken) (heof : eof.type = .eof) {maxNodes : ℕ}
    (hnodes : nodeCount [] ≤ maxNodes) : BuildsTreeInPool [] eof maxNodes := by
  obtain ⟨n, rfl⟩ : ∃ n, maxNodes = n + 1 := Nat.exists_eq_add_of_le' hnodes
  obtain ⟨value, type, flags, line, column, length⟩ := eof
  obtain rfl : type = .eof := heof
  exact ⟨1, _, _, _, rfl, rfl, rfl, rfl⟩

/-- With nodes enough, no program is returned as a tree whose nodes are allocated. In the pool,
before it is freed, the tree was that of the program if and only if there are no functions. -/
theorem buildsTree_never (fs : List FunctionSource) {eof : PolycallToken} (heof : eof.type = .eof)
    {maxNodes : ℕ} (hnodes : nodeCount fs ≤ maxNodes) :
    ¬BuildsTree fs eof maxNodes ∧ (BuildsTreeInPool fs eof maxNodes ↔ fs = []) := by
  refine ⟨not_buildsTree fs eof maxNodes, ?_⟩
  cases fs with
  | nil => exact iff_of_true (buildsTreeInPool_nil eof heof hnodes) rfl
  | cons f fs =>
    exact iff_of_false (not_buildsTreeInPool_cons f fs eof hnodes) (List.cons_ne_nil f fs)

/-- A token of a type in the first line. -/
def tokenAt (type : PolycallTokenType) (column : UInt32) : PolycallToken :=
  ⟨.none, type, 0, 1, column, 1⟩

/-- A function without parameters whose body is a number. -/
def constantFunction : FunctionSource :=
  ⟨tokenAt .identifier 1, tokenAt .separator 2, [], tokenAt .separator 3, tokenAt .separator 4,
    [tokenAt .number 5], tokenAt .separator 6, rfl, rfl, by decide, rfl, rfl, by decide, rfl⟩

/-- It is not built even in the pool, and the program without functions is built there, but not in
nodes that are allocated. -/
theorem buildsTree_never_constant :
    ¬BuildsTreeInPool [constantFunction] (tokenAt .eof 7) 65536 ∧
      ¬BuildsTree [] (tokenAt .eof 1) 65536 ∧ BuildsTreeInPool [] (tokenAt .eof 1) 65536 := by
  obtain ⟨-, hconstant⟩ := @buildsTree_never [constantFunction] (tokenAt .eof 7) rfl 65536
    (by decide)
  obtain ⟨htree, hpool⟩ := @buildsTree_never [] (tokenAt .eof 1) rfl 65536 (by decide)
  exact ⟨fun hbuilds => List.cons_ne_nil _ _ (hconstant.1 hbuilds), htree, hpool.2 rfl⟩

/-- It is not parsed as it should be, not even before the nodes are freed. -/
theorem constant_not_built :
    ¬BuildsTree [constantFunction] (tokenAt .eof 7) 65536 ∧
      ¬BuildsTreeInPool [constantFunction] (tokenAt .eof 7) 65536 :=
  ⟨not_buildsTree _ _ _, not_buildsTreeInPool_cons _ _ _ (by decide)⟩

end LibPolyCall.Parser
