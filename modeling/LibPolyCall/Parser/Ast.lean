import LibPolyCall.Tokenizer.Token

/-!
# Syntax trees

The types of `polycall_parser.h`, with a node as the tree below it, and the operations of
`polycall_parser.c` that create and visit nodes. The attributes and the location of a node, which
no function of the parser sets, and its pointer to its parent are left out.
-/

namespace LibPolyCall.Parser

open Tokenizer

/-- `PolycallASTType`. -/
inductive PolycallASTType where
  | none
  | program
  | function
  | variable
  | expression
  | statement
  | block
  | controlFlow
  | error
deriving DecidableEq, Repr

/-- `PolycallASTNode`. -/
inductive PolycallASTNode where
  | mk (type : PolycallASTType) (value : PolycallValue) (children : List PolycallASTNode)
deriving Repr

namespace PolycallASTNode

/-- `type`. -/
def type : PolycallASTNode → PolycallASTType
  | mk type _ _ => type

/-- `value`. -/
def value : PolycallASTNode → PolycallValue
  | mk _ value _ => value

/-- `children`. -/
def children : PolycallASTNode → List PolycallASTNode
  | mk _ _ children => children

/-- What identifies a node in a sequence of nodes. -/
def label (node : PolycallASTNode) : PolycallASTType × PolycallValue := (node.type, node.value)

end PolycallASTNode

/-- `polycall_ast_create_node`, where the allocation succeeds. -/
def createNode (type : PolycallASTType) (value : PolycallValue) : PolycallASTNode :=
  .mk type value []

mutual

/-- The nodes in the order in which `polycall_ast_visit` visits them. -/
def visit : PolycallASTNode → List PolycallASTNode
  | .mk type value children => .mk type value children :: visitAll children

/-- The nodes of a list of children in this order. -/
def visitAll : List PolycallASTNode → List PolycallASTNode
  | [] => []
  | child :: children => visit child ++ visitAll children

end

/-- `PolycallAST`. The flat array refers to the nodes of a pool by their positions, and to others by
the nodes themselves. -/
structure PolycallAST (ν : Type) where
  root : Option PolycallASTNode
  nodes : List ν
  capacity : ℕ

end LibPolyCall.Parser
