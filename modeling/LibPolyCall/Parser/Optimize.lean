import LibPolyCall.Parser.Ast

/-!
# Optimising a tree

`polycall_ast_optimize` of `polycall_parser.c` and what it calls. The rewriting keeps the nodes of a
tree but for the blocks that it collapses (`labels_optimizeNode`). But the copy that is rewritten is
a copy of the root alone, so what is below the root is lost: `optimize_preserves_iff` states when
nothing is.
-/

namespace LibPolyCall.Parser

open Tokenizer

mutual

/-- `optimize_node`. The levels other than 1 rewrite nothing. -/
def optimizeNode (level : UInt32) : PolycallASTNode → PolycallASTNode
  | .mk type value [child] =>
    if level = 1 ∧ type = .block then optimizeNode level child
    else .mk type value [optimizeNode level child]
  | .mk type value children => .mk type value (optimizeNodes level children)

/-- `optimize_node` on each of the children. -/
def optimizeNodes (level : UInt32) : List PolycallASTNode → List PolycallASTNode
  | [] => []
  | child :: children => optimizeNode level child :: optimizeNodes level children

end

/-- The nodes of a list are optimised one by one. -/
theorem optimizeNodes_eq (level : UInt32) (nodes : List PolycallASTNode) :
    optimizeNodes level nodes = nodes.map (optimizeNode level) := by
  induction nodes with
  | nil => rfl
  | cons node nodes ih => rw [optimizeNodes, ih, List.map_cons]

/-- A node stays, over its optimised children, unless it is a block with one child at level 1. -/
theorem optimizeNode_mk_of_not {level : UInt32} {type : PolycallASTType} (value : PolycallValue)
    {children : List PolycallASTNode}
    (h : ¬(level = 1 ∧ type = .block ∧ children.length = 1)) :
    optimizeNode level (.mk type value children) =
      .mk type value (children.map (optimizeNode level)) := by
  match children with
  | [] =>
    rw [optimizeNode, optimizeNodes, List.map_nil]
    simp
  | [child] =>
    rw [optimizeNode, if_neg fun hcollapse => h ⟨hcollapse.1, hcollapse.2, rfl⟩]
    rfl
  | first :: second :: rest =>
    rw [optimizeNode, optimizeNodes_eq]
    simp

/-- Which allocations of `polycall_ast_optimize` succeed: for the tree, its array and its root. -/
structure OptimizeAllocations where
  ast : Bool
  nodes : Bool
  root : Bool
deriving DecidableEq, Repr

/-- `polycall_ast_optimize`. Its flat array has `ast.capacity` places; where that is 0, the store of
the root behind it is not modelled. -/
def optimize {ν : Type} (alloc : OptimizeAllocations) (ast : PolycallAST ν) (level : UInt32) :
    Option (PolycallAST PolycallASTNode) :=
  match ast.root with
  | none => none
  | some root =>
    if alloc.ast ∧ alloc.nodes ∧ alloc.root then
      let optimized := optimizeNode level (createNode root.type root.value)
      some ⟨some optimized, visit optimized, ast.capacity⟩
    else none

mutual

/-- The types and values of the nodes of a tree in order, at level 1 without those of the blocks
that have exactly one child. -/
def sourceLabels (level : UInt32) :
    PolycallASTNode → List (PolycallASTType × PolycallValue)
  | .mk type value children =>
    if level = 1 ∧ type = .block ∧ children.length = 1 then sourceLabelsAll level children
    else (type, value) :: sourceLabelsAll level children

/-- The types and values of the nodes of some trees. -/
def sourceLabelsAll (level : UInt32) :
    List PolycallASTNode → List (PolycallASTType × PolycallValue)
  | [] => []
  | child :: children => sourceLabels level child ++ sourceLabelsAll level children

end

mutual

/-- The rewriting keeps the nodes of a tree but for the blocks that it collapses. -/
theorem labels_optimizeNode (level : UInt32) : ∀ node : PolycallASTNode,
    (visit (optimizeNode level node)).map PolycallASTNode.label = sourceLabels level node
  | .mk type value [] => by
    simp [optimizeNode, optimizeNodes, sourceLabels, sourceLabelsAll, visit, visitAll,
      PolycallASTNode.label, PolycallASTNode.type, PolycallASTNode.value]
  | .mk type value [child] => by
    have hchild := labels_optimizeNode level child
    rw [optimizeNode, sourceLabels]
    by_cases hcollapse : level = 1 ∧ type = .block
    · rw [if_pos hcollapse, if_pos ⟨hcollapse.1, hcollapse.2, rfl⟩, hchild, sourceLabelsAll,
        sourceLabelsAll, List.append_nil]
    · -- Another node than a block, or another level: the node stays.
      have hkeep : ¬(level = 1 ∧ type = .block ∧ [child].length = 1) := fun h =>
        hcollapse ⟨h.1, h.2.1⟩
      rw [if_neg hcollapse, if_neg hkeep, visit, visitAll, visitAll, List.map_cons,
        List.append_nil, hchild, sourceLabelsAll, sourceLabelsAll, List.append_nil]
      rfl
  | .mk type value (first :: second :: children) => by
    have hall := labels_optimizeNodes level (first :: second :: children)
    have hkeep : ¬(level = 1 ∧ type = .block ∧ (first :: second :: children).length = 1) := by
      simp
    rw [optimizeNode, sourceLabels, if_neg hkeep, visit, List.map_cons, hall]
    · rfl
    · simp

/-- The same for the children. -/
theorem labels_optimizeNodes (level : UInt32) : ∀ nodes : List PolycallASTNode,
    (visitAll (optimizeNodes level nodes)).map PolycallASTNode.label = sourceLabelsAll level nodes
  | [] => by simp [optimizeNodes, sourceLabelsAll, visitAll]
  | child :: children => by
    rw [optimizeNodes, visitAll, List.map_append, labels_optimizeNode level child,
      labels_optimizeNodes level children, sourceLabelsAll]

end

/-- If `polycall_ast_optimize` returns a tree, its nodes have the types and values of those of the
given tree in order, and its flat array holds them. -/
def Preserves {ν : Type} (ast : PolycallAST ν) (level : UInt32) : Prop :=
  ∀ alloc optimized root, optimize alloc ast level = some optimized → ast.root = some root →
    (∃ node, optimized.root = some node ∧
      (visit node).map PolycallASTNode.label = sourceLabels level root) ∧
    optimized.nodes.map PolycallASTNode.label = sourceLabels level root

/-- The tree is a node of this type and value without children, or at level 1 a block whose only
child is such a tree. -/
inductive Sole (level : UInt32) (type : PolycallASTType) (value : PolycallValue) :
    PolycallASTNode → Prop
  | leaf : Sole level type value (.mk type value [])
  | block {v : PolycallValue} {child : PolycallASTNode} (hlevel : level = 1)
      (h : Sole level type value child) : Sole level type value (.mk .block v [child])

/-- A tree is never empty. -/
theorem sourceLabels_ne_nil (level : UInt32) : ∀ node : PolycallASTNode,
    sourceLabels level node ≠ []
  | .mk type value [] => by simp [sourceLabels]
  | .mk type value [child] => by
    have hchild := sourceLabels_ne_nil level child
    rw [sourceLabels]
    split_ifs
    · rw [sourceLabelsAll, sourceLabelsAll, List.append_nil]
      exact hchild
    · exact List.cons_ne_nil _ _
  | .mk type value (first :: second :: children) => by simp [sourceLabels]

/-- A tree without collapsed blocks has one label just if it is a single node below blocks. -/
theorem sole_iff (level : UInt32) (type : PolycallASTType) (value : PolycallValue) :
    ∀ node : PolycallASTNode, sourceLabels level node = [(type, value)] ↔ Sole level type value node
  | .mk t v [] => by
    rw [sourceLabels, sourceLabelsAll, if_neg (by simp)]
    constructor
    · intro h
      obtain ⟨rfl, rfl⟩ := Prod.mk.inj (List.cons.inj h).1
      exact .leaf
    · intro h
      cases h
      rfl
  | .mk t v [child] => by
    have hchild := sole_iff level type value child
    rw [sourceLabels, sourceLabelsAll, sourceLabelsAll, List.append_nil]
    by_cases hcollapse : level = 1 ∧ t = .block
    · rw [if_pos ⟨hcollapse.1, hcollapse.2, rfl⟩, hchild]
      obtain ⟨hlevel, rfl⟩ := hcollapse
      constructor
      · exact .block hlevel
      · intro h
        cases h with
        | block _ h => exact h
    · rw [if_neg fun h => hcollapse ⟨h.1, h.2.1⟩]
      refine iff_of_false (fun h => ?_) fun h => ?_
      · exact sourceLabels_ne_nil level child (List.cons.inj h).2
      · cases h with
        | block hlevel _ => exact hcollapse ⟨hlevel, rfl⟩
  | .mk t v (first :: second :: children) => by
    rw [sourceLabels, if_neg (by simp), sourceLabelsAll]
    refine iff_of_false (fun h => ?_) fun h => by cases h
    have hempty := (List.append_eq_nil_iff.1 (List.cons.inj h).2).1
    exact sourceLabels_ne_nil level first hempty

/-- A tree is preserved if and only if its root has no children, or at level 1 the root is a block
from which blocks with one child each lead to a block without children that has the value of the
root. -/
theorem optimize_preserves_iff {ν : Type} {ast : PolycallAST ν} {root : PolycallASTNode}
    (hroot : ast.root = some root) (level : UInt32) :
    Preserves ast level ↔ Sole level root.type root.value root := by
  have hcopy : (visit (optimizeNode level (createNode root.type root.value))).map
      PolycallASTNode.label = [(root.type, root.value)] := by
    rw [labels_optimizeNode, sole_iff]
    exact .leaf
  -- The copy is a node without children, whatever is below the root.
  rw [← sole_iff, ← hcopy]
  constructor
  · intro h
    have hsome : optimize ⟨true, true, true⟩ ast level =
        some ⟨some (optimizeNode level (createNode root.type root.value)),
          visit (optimizeNode level (createNode root.type root.value)), ast.capacity⟩ := by
      rw [optimize, hroot]
      exact if_pos ⟨rfl, rfl, rfl⟩
    exact (h _ _ root hsome hroot).2.symm
  · intro h alloc optimized root' hoptimize hroot'
    rw [hroot, Option.some_inj] at hroot'
    subst hroot'
    rw [optimize, hroot] at hoptimize
    dsimp only at hoptimize
    split_ifs at hoptimize
    obtain rfl := Option.some.inj hoptimize
    exact ⟨⟨_, rfl, h.symm⟩, h.symm⟩

/-- A block in a block is preserved at level 1. -/
theorem optimize_preserves_iff_blocks :
    let root : PolycallASTNode := .mk .block .none [.mk .block .none []]
    Preserves ⟨some root, visit root, 2⟩ 1 :=
  (optimize_preserves_iff rfl 1).2 (.block rfl .leaf)

/-- A program with one function is not preserved: the optimised tree is the program node alone. -/
theorem function_dropped :
    let root : PolycallASTNode := .mk .program .none [.mk .function .none []]
    ¬Preserves ⟨some root, visit root, 2⟩ 0 := by
  intro root h
  have hnodes := (h ⟨true, true, true⟩ _ root rfl rfl).2
  have hlength := congrArg List.length hnodes
  simp [optimizeNode, optimizeNodes, sourceLabels, sourceLabelsAll, root, createNode, visit,
    visitAll, PolycallASTNode.type, PolycallASTNode.value] at hlength

end LibPolyCall.Parser
