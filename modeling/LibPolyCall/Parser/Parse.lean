import LibPolyCall.Library.Fuel
import LibPolyCall.Parser.Ast

/-!
# The parser

`parse_tokens` of `polycall_parser.c` and what it calls, where the allocations succeed. The pointer
to the current token is the position in the array together with the token there. The record of the
positions that `advance_token` has left is not part of the parser: it serves to state what is
consumed. `child_count` can pass the slots that are allocated for the children; the trees here keep
every child that is stored. The three loops may not end, so they take fuel.
-/

namespace LibPolyCall.Parser

open Tokenizer Fuel

/-- `NodePool`: how many nodes are taken, and whether the memory is still allocated. -/
structure NodePool where
  capacity : ℕ
  used : ℕ
  allocated : Bool
deriving DecidableEq, Repr

/-- `ParserState`. -/
structure ParserState where
  currentToken : Option (ℕ × PolycallToken)
  tokenIndex : ℕ
  pool : NodePool
  /-- The positions that were left, first to last. -/
  consumed : List ℕ
deriving DecidableEq, Repr

/-- `create_node_pool`. -/
def createNodePool (capacity : ℕ) : NodePool := ⟨capacity, 0, true⟩

/-- `destroy_node_pool`. -/
def destroyNodePool (_ : NodePool) : NodePool := ⟨0, 0, false⟩

/-- `allocate_node`: whether there is a node, and the state with it taken. -/
def allocateNode (state : ParserState) : Bool × ParserState :=
  if state.pool.capacity ≤ state.pool.used then (false, state)
  else (true, { state with pool := { state.pool with used := state.pool.used + 1 } })

/-- `advance_token`. -/
def advanceToken (tokens : List PolycallToken) (state : ParserState) : Bool × ParserState :=
  match tokens[state.tokenIndex]? with
  | none => (false, state)
  | some token =>
    (true, { state with
      currentToken := some (state.tokenIndex, token)
      tokenIndex := state.tokenIndex + 1
      consumed := state.consumed ++ (state.currentToken.map Prod.fst).toList })

/-- The type of the current token, if there is one. -/
def ParserState.currentType (state : ParserState) : Option PolycallTokenType :=
  state.currentToken.map fun current => current.2.type

/-- `expect_token`. -/
def expectToken (tokens : List PolycallToken) (state : ParserState) (type : PolycallTokenType) :
    Bool × ParserState :=
  if state.currentType = some type then advanceToken tokens state else (false, state)

/-- The tokens that are expressions of their own. -/
def isExpression (type : PolycallTokenType) : Bool :=
  type = .number || type = .string || type = .identifier

/-- `parse_expression`. -/
def parseExpression (tokens : List PolycallToken) (state : ParserState) :
    Option PolycallASTNode × ParserState :=
  match state.currentToken with
  | none => (none, state)
  | some (_, current) =>
    if isExpression current.type then
      match allocateNode state with
      | (true, state) => (some (.mk .expression current.value []), (advanceToken tokens state).2)
      | (false, state) => (none, state)
    else (none, state)

/-- `parse_statement`. -/
def parseStatement (tokens : List PolycallToken) (state : ParserState) :
    Option PolycallASTNode × ParserState :=
  match state.currentToken with
  | none => (none, state)
  | some _ =>
    match allocateNode state with
    | (false, state) => (none, state)
    | (true, state) =>
      match parseExpression tokens state with
      | (some expr, state) => (some (.mk .statement .none [expr]), state)
      | (none, state) => (some (.mk .statement .none []), state)

/-- `state->current_token && state->current_token->type != type`. -/
def isNot (type : PolycallTokenType) (state : ParserState) : Bool :=
  match state.currentType with
  | none => false
  | some current => current ≠ type

/-- A round of the loop of `parse_block`: a statement is stored behind the others. -/
def addStatement (tokens : List PolycallToken) (s : List PolycallASTNode × ParserState) :
    List PolycallASTNode × ParserState :=
  let (stmt, state) := parseStatement tokens s.2
  (s.1 ++ stmt.toList, state)

/-- The loop of `parse_block`. -/
def parseStatements (tokens : List PolycallToken) (fuel : ℕ) :
    List PolycallASTNode × ParserState → Option (List PolycallASTNode × ParserState) :=
  loop (fun s => isNot .separator s.2) (fun _ s => some (addStatement tokens s)) fuel

/-- `parse_block`. -/
def parseBlock (tokens : List PolycallToken) (fuel : ℕ) (state : ParserState) :
    Option (Option PolycallASTNode × ParserState) :=
  match expectToken tokens state .separator with
  | (false, state) => some (none, state)
  | (true, state) =>
    match allocateNode state with
    | (false, state) => some (none, state)
    | (true, state) =>
      (parseStatements tokens fuel ([], state)).map fun (children, state) =>
        (some (.mk .block .none children), (expectToken tokens state .separator).2)

/-- The loop of `parse_function`, which skips the parameters. -/
def skipParameters (tokens : List PolycallToken) (fuel : ℕ) : ParserState → Option ParserState :=
  loop (isNot .separator) (fun _ state => some (advanceToken tokens state).2) fuel

/-- `state->current_token->value`. -/
def ParserState.currentValue (state : ParserState) : PolycallValue :=
  (state.currentToken.map fun current => current.2.value).getD .none

/-- `parse_function`. -/
def parseFunction (tokens : List PolycallToken) (fuel : ℕ) (state : ParserState) :
    Option (Option PolycallASTNode × ParserState) :=
  match expectToken tokens state .identifier with
  | (false, state) => some (none, state)
  | (true, state) =>
    match allocateNode state with
    | (false, state) => some (none, state)
    | (true, state) =>
      let value := state.currentValue
      let state := (expectToken tokens state .separator).2
      (skipParameters tokens fuel state).bind fun state =>
        (parseBlock tokens fuel (expectToken tokens state .separator).2).map fun (body, state) =>
          (some (.mk .function value body.toList), state)

/-- A round of the loop of `parse_tokens`: a function is stored behind the others. -/
def addFunction (tokens : List PolycallToken) (fuel : ℕ) (s : List PolycallASTNode × ParserState) :
    Option (List PolycallASTNode × ParserState) :=
  (parseFunction tokens fuel s.2).map fun (node, state) => (s.1 ++ node.toList, state)

/-- The loop of `parse_tokens`. -/
def parseFunctions (tokens : List PolycallToken) (fuel : ℕ) :
    List PolycallASTNode × ParserState → Option (List PolycallASTNode × ParserState) :=
  loop (fun s => isNot .eof s.2) (addFunction tokens) fuel

/-- The state in which `parse_tokens` starts. -/
def initialState (tokens : List PolycallToken) (maxNodes : ℕ) : ParserState :=
  ⟨tokens.head?.map fun token => (0, token), 0, createNodePool maxNodes, []⟩

/-- The part of `parse_tokens` that builds the tree: the root, if there is a node for it, and the
state at the end. -/
def parseProgram (tokens : List PolycallToken) (maxNodes fuel : ℕ) :
    Option (Option PolycallASTNode × ParserState) :=
  match allocateNode (initialState tokens maxNodes) with
  | (false, state) => some (none, state)
  | (true, state) =>
    (parseFunctions tokens fuel ([], state)).map fun (children, state) =>
      (some (.mk .program .none children), state)

/-- `parse_tokens`: the tree, and what has become of the pool that its nodes lie in. -/
def parseTokens (tokens : List PolycallToken) (maxNodes fuel : ℕ) :
    Option (PolycallAST ℕ × NodePool) :=
  (parseProgram tokens maxNodes fuel).map fun (root, state) =>
    (⟨root, List.range state.pool.used, state.pool.used⟩, destroyNodePool state.pool)

end LibPolyCall.Parser
