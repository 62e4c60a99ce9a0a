import LibPolyCall.Parser.Ast

/-!
# Transform chains

`polycall_ast_create_transforms` and `polycall_ast_apply_transforms` of `polycall_parser.c`. A chain
is applied to the nodes of the flat array one after the other, so the node that a chain makes of a
node is what its parts make one behind the other (`applyChain_append`), and two chains in sequence
do what their concatenation does (`applyTransforms_append`).
-/

namespace LibPolyCall.Parser

variable {ν : Type*}

/-- `PolycallAST`, whose root and nodes are pointers, which the transforms alone look behind. -/
structure FlatAST (ν : Type*) where
  root : Option ν
  nodes : List ν
  capacity : ℕ

/-- `node_count`. -/
def FlatAST.nodeCount (ast : FlatAST ν) : ℕ := ast.nodes.length

/-- `ASTTransform`: `none` is the `NULL` for a node that is dropped. -/
abbrev ASTTransform (ν : Type*) := ν → Option ν

/-- `PolycallASTTransforms`: the entries of its array, which may be `NULL`. -/
structure PolycallASTTransforms (ν : Type*) where
  transforms : List (Option (ASTTransform ν))

/-- `polycall_ast_create_transforms`, and whether its allocations succeed. -/
def astCreateTransforms (transforms : Option (List (Option (ASTTransform ν)))) (allocated : Bool) :
    Option (PolycallASTTransforms ν) :=
  match transforms with
  | none => none
  | some transforms =>
    if transforms.length = 0 then none
    else if !allocated then none
    else some ⟨transforms⟩

/-- The loop over the chain: what it makes of a node. -/
def applyChain : List (Option (ASTTransform ν)) → ν → Option ν
  | [], transformed => some transformed
  | none :: transforms, transformed => applyChain transforms transformed
  | some transform :: transforms, transformed =>
    match transform transformed with
    | none => none
    | some transformed => applyChain transforms transformed

/-- A round of the loop over the nodes: what is left of the node is stored behind the others. -/
def addTransformed (transforms : List (Option (ASTTransform ν))) (nodes : List ν) (current : ν) :
    List ν :=
  match applyChain transforms current with
  | none => nodes
  | some transformed => nodes ++ [transformed]

/-- `polycall_ast_apply_transforms`, and whether its allocations succeed. -/
def astApplyTransforms (ast : Option (FlatAST ν)) (transforms : Option (PolycallASTTransforms ν))
    (allocated : Bool) : Option (FlatAST ν) :=
  match ast, transforms with
  | some ast, some chain =>
    if !allocated then none
    else
      let nodes := ast.nodes.foldl (addTransformed chain.transforms) []
      some ⟨nodes.head?, nodes, ast.nodeCount⟩
  | _, _ => none

/-- A chain that is created of these entries and applied. -/
def applyEntries (entries : List (Option (ASTTransform ν))) (ast : Option (FlatAST ν)) :
    Option (FlatAST ν) :=
  astApplyTransforms ast (astCreateTransforms (some entries) true) true

/-! ## Chains -/

section Chains

variable {S T : List (Option (ASTTransform ν))}

/-- What a chain makes of a node is what its parts make one behind the other. -/
theorem applyChain_append (S T : List (Option (ASTTransform ν))) (node : ν) :
    applyChain (S ++ T) node = (applyChain S node).bind (applyChain T) := by
  fun_induction applyChain S node with
  | case1 node => rfl
  | case2 S node ih => exact ih
  | case3 transform S node hdropped =>
    rw [List.cons_append, applyChain, hdropped]
    rfl
  | case4 transform S node transformed hnode ih =>
    rw [List.cons_append, applyChain, hnode]
    exact ih

/-- The loop over the nodes keeps what the chain makes of each. -/
theorem foldl_addTransformed (S : List (Option (ASTTransform ν))) (nodes stored : List ν) :
    nodes.foldl (addTransformed S) stored = stored ++ nodes.filterMap (applyChain S) := by
  induction nodes generalizing stored with
  | nil => rw [List.foldl_nil, List.filterMap_nil, List.append_nil]
  | cons node nodes ih =>
    rw [List.foldl_cons, ih, addTransformed]
    cases hnode : applyChain S node with
    | none => rw [List.filterMap_cons_none hnode]
    | some transformed =>
      rw [List.filterMap_cons_some hnode, List.append_assoc, List.singleton_append]

/-- What the application of a chain returns. -/
theorem applyEntries_eq (hS : S ≠ []) (ast : FlatAST ν) :
    applyEntries S (some ast) =
      some ⟨(ast.nodes.filterMap (applyChain S)).head?, ast.nodes.filterMap (applyChain S),
        ast.nodeCount⟩ := by
  have hlength : S.length ≠ 0 := fun hzero => hS (List.length_eq_zero_iff.1 hzero)
  rw [applyEntries, astCreateTransforms, if_neg hlength]
  simp only [Bool.not_true, Bool.false_eq_true, if_false, astApplyTransforms, foldl_addTransformed,
    List.nil_append]

/-- Two chains that are applied in sequence leave the nodes, their number and the root that their
concatenation leaves. -/
theorem applyTransforms_append (ast : FlatAST ν) (hS : S ≠ []) (hT : T ≠ []) :
    ∃ fused last, applyEntries (S ++ T) (some ast) = some fused ∧
      applyEntries T (applyEntries S (some ast)) = some last ∧ fused.nodes = last.nodes ∧
      fused.nodeCount = last.nodeCount ∧ fused.root = last.root := by
  have hchain : applyChain (S ++ T) = fun node => (applyChain S node).bind (applyChain T) :=
    funext (applyChain_append S T)
  have hnodes : ast.nodes.filterMap (applyChain (S ++ T)) =
      (ast.nodes.filterMap (applyChain S)).filterMap (applyChain T) := by
    rw [List.filterMap_filterMap, hchain]
  have hfused := applyEntries_eq (List.append_ne_nil_of_left_ne_nil hS T) ast
  have hfirst := applyEntries_eq hS ast
  have hlast := applyEntries_eq hT ⟨(ast.nodes.filterMap (applyChain S)).head?,
    ast.nodes.filterMap (applyChain S), ast.nodeCount⟩
  rw [← hfirst] at hlast
  exact ⟨_, _, hfused, hlast, hnodes, congrArg List.length hnodes, congrArg List.head? hnodes⟩

end Chains

/-- A chain that drops the odd numbers, in front of one that halves. -/
theorem applyTransforms_append_numbers :
    ∃ fused last : FlatAST ℕ,
      applyEntries ([none, some fun n => if n % 2 = 0 then some n else none] ++
          [some fun n => some (n / 2)]) (some ⟨some 3, [3, 4, 8], 3⟩) = some fused ∧
        applyEntries [some fun n => some (n / 2)]
          (applyEntries [none, some fun n => if n % 2 = 0 then some n else none]
            (some ⟨some 3, [3, 4, 8], 3⟩)) = some last ∧
        fused.nodes = last.nodes ∧ fused.nodeCount = last.nodeCount ∧ fused.root = last.root :=
  applyTransforms_append _ (List.cons_ne_nil _ _) (List.cons_ne_nil _ _)

end LibPolyCall.Parser
