import LibPolyCall.Library.Forest
import LibPolyCall.Library.Fuel
import LibPolyCall.Library.Steps
import LibPolyCall.Parser.Ast

/-!
# Trees built through the interface

The nodes of `polycall_parser.c` as a caller has them: records in memory that refer to each other
by address, a list of children in one direction and a pointer to the parent in the other.
`polycall_ast_add_child` attaches any node to any other, whether it is attached already or lies
above it, so what is built is a forest exactly when every call attaches a root to a node of
another tree (`treesBuilt_iff`). In a forest, `validate_node_structure` fails on nothing but the
depth, and `polycall_ast_destroy_node` frees every node of the tree once.
-/

namespace LibPolyCall.Parser

open Fuel Steps Tokenizer

/-- The address of a node: its position in the order in which the nodes were created. -/
abbrev Address := ℕ

/-- `PolycallASTNode`, with the nodes that it refers to by address. -/
structure NodeRecord where
  type : PolycallASTType
  value : PolycallValue
  children : List Address
  parent : Option Address

/-- The nodes that have been created. -/
abbrev Heap := List NodeRecord

namespace Heap

variable (heap : Heap)

/-- `node->children[0]` to `node->children[child_count - 1]`. -/
def children (node : Address) : List Address := (heap[node]?.map NodeRecord.children).getD []

/-- `node->parent`. -/
def parent (node : Address) : Option Address := heap[node]?.bind NodeRecord.parent

/-- How the nodes are linked. -/
def links : Forest.Links Address := ⟨heap.children, heap.parent⟩

end Heap

/-- `polycall_ast_create_node`, with the outcome of its `calloc`; without a value the node has the
one that `calloc` leaves behind. -/
def astCreateNode (heap : Heap) (type : PolycallASTType) (value : Option PolycallValue)
    (allocated : Bool) : Option Address × Heap :=
  if !allocated then (none, heap)
  else (some heap.length, heap ++ [⟨type, value.getD .none, [], none⟩])

/-- `polycall_ast_add_child`, with the outcome of its `realloc`. -/
def astAddChild (heap : Heap) (parent child : Option Address) (allocated : Bool) : Bool × Heap :=
  match parent, child with
  | some parent, some child =>
    if !allocated then (false, heap)
    else
      -- Neither the child's parent nor its place in another list is looked at.
      let heap := heap.modify parent fun node => { node with children := node.children ++ [child] }
      (true, heap.modify child fun node => { node with parent := some parent })
  | _, _ => (false, heap)

/-- `validate_node_structure`, on a node: the children are never `NULL`. -/
def validateNodeStructure (heap : Heap) (node : Address) (depth maxDepth : ℕ) : Bool :=
  if _h : maxDepth < depth then false
  else
    (heap.children node).all fun child =>
      heap.parent child = some node && validateNodeStructure heap child (depth + 1) maxDepth
termination_by maxDepth + 1 - depth

/-- `polycall_ast_destroy_node`: the nodes that it frees, in order. Where the children lead around
in a circle it does not end, so it is given fuel. -/
def astDestroyNode (heap : Heap) : ℕ → Address → Option (List Address)
  | 0, _ => none
  | fuel + 1, node =>
    ((heap.children node).mapM (astDestroyNode heap fuel)).map fun freed => freed.flatten ++ [node]

/-! ## Reading the heap -/

variable {heap : Heap} {node parent child : Address}

/-- The addresses of nodes that there are not have no children and no parent. -/
theorem links_of_length_le (h : heap.length ≤ node) :
    heap.children node = [] ∧ heap.parent node = none := by
  unfold Heap.children Heap.parent
  rw [List.getElem?_eq_none h]
  exact ⟨rfl, rfl⟩

/-- A new node is linked to none. -/
theorem links_create (type : PolycallASTType) (value : PolycallValue) :
    Heap.links (heap ++ [⟨type, value, [], none⟩]) = heap.links := by
  unfold Heap.links Heap.children Heap.parent
  congr 1 <;> funext node
  all_goals
    rcases Nat.lt_trichotomy node heap.length with hlt | rfl | hgt
    · rw [List.getElem?_append_left hlt]
    · rw [List.getElem?_concat_length, List.getElem?_eq_none (Nat.le_refl _)]
      rfl
    · rw [List.getElem?_eq_none (by rw [List.length_append, List.length_singleton]; omega),
        List.getElem?_eq_none hgt.le]

/-- Adding a child attaches it. -/
theorem links_addChild (hparent : parent < heap.length) (hchild : child < heap.length) :
    Heap.links (astAddChild heap (some parent) (some child) true).2 =
      heap.links.attach parent child := by
  -- The two writes as one; they meet where a node is attached to itself.
  have hget : ∀ node, (astAddChild heap (some parent) (some child) true).2[node]? =
      heap[node]?.map fun r : NodeRecord =>
        { r with
          children := if parent = node then r.children ++ [child] else r.children,
          parent := if child = node then some parent else r.parent } := by
    intro node
    simp only [astAddChild, Bool.not_true, Bool.false_eq_true, if_false, List.getElem?_modify,
      Option.map_eq_map, Option.map_map]
    congr 1
    funext r
    simp only [Function.comp]
    split_ifs <;> rfl
  have hin : ∀ {node}, node < heap.length → ∃ r, heap[node]? = some r := fun h =>
    ⟨_, List.getElem?_eq_getElem h⟩
  unfold Heap.links Forest.Links.attach
  dsimp only
  congr 1
  · funext node
    rcases eq_or_ne node parent with rfl | hne
    · obtain ⟨r, hr⟩ := hin hparent
      rw [Function.update_self, Heap.children, Heap.children, hget, hr]
      simp
    · rw [Function.update_of_ne hne, Heap.children, Heap.children, hget]
      cases heap[node]? <;> simp [hne.symm]
  · funext node
    rcases eq_or_ne node child with rfl | hne
    · obtain ⟨r, hr⟩ := hin hchild
      rw [Function.update_self, Heap.parent, hget, hr]
      simp
    · rw [Function.update_of_ne hne, Heap.parent, Heap.parent, hget]
      cases heap[node]? <;> simp [hne.symm]

/-! ## Forests -/

/-- In a forest, the validation fails only on a node that lies too deep. -/
theorem validateNodeStructure_iff (h : heap.links.IsForest) (maxDepth depth : ℕ) (node : Address) :
    validateNodeStructure heap node depth maxDepth = true ↔
      ∀ n x, heap.links.Down n node x → depth + n ≤ maxDepth := by
  have hstep : ∀ a depth, validateNodeStructure heap a depth maxDepth = true ↔
      depth ≤ maxDepth ∧ True ∧
        ∀ c, heap.links.Lists a c → validateNodeStructure heap c (depth + 1) maxDepth = true := by
    intro a depth
    rw [validateNodeStructure]
    by_cases hdeep : maxDepth < depth
    · rw [dif_pos hdeep]
      exact iff_of_false Bool.false_ne_true fun hall => not_le.2 hdeep hall.1
    · rw [dif_neg hdeep, List.all_eq_true, and_iff_right (not_lt.1 hdeep), true_and]
      refine forall₂_congr fun c hc => ?_
      rw [Bool.and_eq_true, decide_eq_true_eq]
      exact and_iff_right (h.parent_eq a c hc)
  rw [Forest.Links.checked_iff hstep _ depth node rfl]
  exact and_iff_left fun _ _ => trivial

/-- Only nodes have children, so there are finitely many that do. -/
theorem finite_parents (heap : Heap) : {node | heap.links.children node ≠ []}.Finite := by
  refine (Set.finite_lt_nat heap.length).subset fun node hnode => ?_
  by_contra hle
  exact hnode (links_of_length_le (not_lt.1 hle)).1

/-- In a forest, `destroy_node` ends, and frees every node of the tree once. -/
theorem astDestroyNode_settles (h : heap.links.IsForest) (node : Address) :
    ∃ freed, Settles (fun fuel => astDestroyNode heap fuel node) freed ∧ freed.Nodup ∧
      ∀ x, x ∈ freed ↔ heap.links.Below node x := by
  -- The induction is over the children: in a forest they do not lead back.
  induction node using (h.wellFounded (finite_parents heap)).induction with
  | _ node ih =>
    have hchoose : ∀ c, ∃ freed, heap.links.Lists node c →
        Settles (fun fuel => astDestroyNode heap fuel c) freed ∧ freed.Nodup ∧
          ∀ x, x ∈ freed ↔ heap.links.Below c x := by
      intro c
      by_cases hc : heap.links.Lists node c
      · obtain ⟨freed, hfreed⟩ := ih c hc
        exact ⟨freed, fun _ => hfreed⟩
      · exact ⟨[], fun hc' => absurd hc' hc⟩
    choose freed hfreed using hchoose
    -- What is freed for the children are the nodes of their trees.
    have hmem : ∀ x, x ∈ (heap.children node).flatMap freed ↔
        ∃ c, heap.links.Lists node c ∧ heap.links.Below c x := by
      intro x
      rw [List.mem_flatMap]
      exact exists_congr fun c => and_congr_right fun hc => (hfreed c hc).2.2 x
    refine ⟨(heap.children node).flatMap freed ++ [node], ?_, ?_, fun x => ?_⟩
    · refine Settles.succ rfl ?_
      exact (settles_mapM fun c hc => (hfreed c hc).1).map fun lists => lists.flatten ++ [node]
    · refine List.Nodup.append ?_ (List.nodup_singleton node) (List.disjoint_singleton.2 ?_)
      · -- The trees of two children have no node in common.
        rw [List.nodup_flatMap]
        refine ⟨fun c hc => (hfreed c hc).2.1, ?_⟩
        refine (h.nodup node).imp_of_mem fun {c d} hc hd hne x hxc hxd => ?_
        exact hne (h.disjoint hc hd (((hfreed c hc).2.2 x).1 hxc) (((hfreed d hd).2.2 x).1 hxd))
      · -- The node is freed after its children, and is in none of their trees.
        rw [hmem]
        rintro ⟨c, hc, hback⟩
        exact h.not_below hc hback
    · rw [List.mem_append, List.mem_singleton, hmem, Forest.Links.below_iff]

/-! ## Runs -/

/-- A call on the nodes that have been created. -/
inductive NodeOp where
  | createNode (type : PolycallASTType) (value : Option PolycallValue) (allocated : Bool)
  | addChild (parent child : Address)

/-- One call: a creation, or an `add_child` that succeeds, which is one on nodes. -/
def nodeStep (heap : Heap) : NodeOp → Option Heap
  | .createNode type value allocated => some (astCreateNode heap type value allocated).2
  | .addChild parent child =>
    if parent < heap.length ∧ child < heap.length then
      some (astAddChild heap (some parent) (some child) true).2
    else none

/-- The nodes form trees: they are linked as a forest, the validation of a node fails only on one
that lies too deep below it, and the destruction of a node frees every node of its tree once. -/
structure TreeShaped (heap : Heap) : Prop where
  forest : heap.links.IsForest
  validates : ∀ node depth maxDepth, validateNodeStructure heap node depth maxDepth = false ↔
    ∃ n x, heap.links.Down n node x ∧ maxDepth < depth + n
  destroys : ∀ node, ∃ freed, Settles (fun fuel => astDestroyNode heap fuel node) freed ∧
    freed.Nodup ∧ ∀ x, x ∈ freed ↔ heap.links.Below node x

/-- Nodes that are linked as a forest form trees. -/
theorem treeShaped_iff : TreeShaped heap ↔ heap.links.IsForest := by
  refine ⟨TreeShaped.forest, fun h => ⟨h, fun node depth maxDepth => ?_, astDestroyNode_settles h⟩⟩
  rw [Bool.eq_false_iff, ne_eq, validateNodeStructure_iff h maxDepth depth node]
  push Not
  rfl

/-- The call attaches no node but the root of a tree to a node of another tree. -/
def AttachesRoot (heap : Heap) (op : NodeOp) : Prop :=
  ∀ parent child, op = .addChild parent child → heap.links.Attachable parent child

/-- What a call does to the links. -/
theorem links_nodeStep {heap' : Heap} {op : NodeOp} (h : nodeStep heap op = some heap') :
    (∃ type value allocated, op = .createNode type value allocated ∧ heap'.links = heap.links) ∨
      ∃ parent child, op = .addChild parent child ∧
        heap'.links = heap.links.attach parent child := by
  cases op with
  | createNode type value allocated =>
    obtain rfl := Option.some.inj h
    refine .inl ⟨type, value, allocated, rfl, ?_⟩
    cases allocated with
    | false => rfl
    | true => exact links_create type (value.getD .none)
  | addChild parent child =>
    rw [nodeStep] at h
    split_ifs at h with hnodes
    obtain rfl := Option.some.inj h
    exact .inr ⟨parent, child, rfl, links_addChild hnodes.1 hnodes.2⟩

/-- A call keeps trees exactly if it attaches a root to a node of another tree. -/
theorem treeShaped_step (op : NodeOp) (heap' : Heap) (hshaped : TreeShaped heap)
    (h : nodeStep heap op = some heap') : TreeShaped heap' ↔ AttachesRoot heap op := by
  rw [treeShaped_iff]
  rcases links_nodeStep h with ⟨type, value, allocated, rfl, heq⟩ | ⟨parent, child, rfl, heq⟩
  · rw [heq]
    exact iff_of_true hshaped.forest fun parent child hop => by cases hop
  · rw [heq, Forest.Links.isForest_attach_iff hshaped.forest]
    constructor
    · rintro hattachable parent child ⟨⟩
      exact hattachable
    · exact fun h => h parent child rfl

/-- No node is linked before any is created. -/
theorem not_above_nil (a x : Address) : ¬ (Heap.links []).Above a x := by
  intro h
  obtain ⟨c, hc, -⟩ := Relation.TransGen.head'_iff.1 h
  exact absurd hc List.not_mem_nil

/-- A heap without nodes is made of trees. -/
theorem treeShaped_nil : TreeShaped [] := by
  refine treeShaped_iff.2 ⟨fun a => List.nodup_nil, fun a b c ha => ?_, fun a c ha => ?_,
    fun a => not_above_nil a a⟩
  · exact absurd ha List.not_mem_nil
  · exact absurd ha List.not_mem_nil

/-- In every run of creations and successful attachments: after every call the nodes form trees,
exactly if every call attaches the root of a tree to a node of another tree. -/
theorem treesBuilt_iff {ops : List NodeOp} {heap : Heap} (hrun : run nodeStep [] ops = some heap) :
    (∀ m ∈ taken nodeStep [] ops, TreeShaped m.1) ∧ TreeShaped heap ↔
      ∀ m ∈ taken nodeStep [] ops, AttachesRoot m.1 m.2 :=
  forall_taken_iff (fun _ op heap' h hstep => treeShaped_step op heap' h hstep) treeShaped_nil hrun

/-- A program with a function. -/
theorem treesBuilt_iff_two :
    TreeShaped [⟨.program, .none, [1], none⟩, ⟨.function, .none, [], some 0⟩] := by
  have hunlinked : Heap.links [⟨.program, .none, [], none⟩, ⟨.function, .none, [], none⟩] =
      Heap.links [] :=
    (@links_create [⟨.program, .none, [], none⟩] _ _).trans (@links_create [] _ _)
  refine ((@treesBuilt_iff [.createNode .program none true, .createNode .function none true,
    .addChild 0 1] _ rfl).2 ?_).2
  change ∀ m ∈ [(([] : Heap), NodeOp.createNode .program none true),
    ([⟨.program, .none, [], none⟩], .createNode .function none true),
    ([⟨.program, .none, [], none⟩, ⟨.function, .none, [], none⟩], .addChild 0 1)],
    AttachesRoot m.1 m.2
  rw [List.forall_mem_cons, List.forall_mem_cons, List.forall_mem_singleton]
  refine ⟨fun _ _ hop => (by cases hop), fun _ _ hop => (by cases hop), ?_⟩
  rintro _ _ ⟨⟩
  rw [hunlinked]
  exact ⟨fun a => List.not_mem_nil, by decide, not_above_nil 1 0⟩

/-- A node that is attached twice is listed twice. -/
theorem attached_twice :
    ∃ heap, run nodeStep [] [.createNode .program none true, .createNode .function none true,
      .addChild 0 1, .addChild 0 1] = some heap ∧ ¬ TreeShaped heap := by
  refine ⟨_, rfl, fun h => ?_⟩
  exact absurd (h.forest.nodup 0) (by decide)

end LibPolyCall.Parser
