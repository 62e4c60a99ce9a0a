import LibPolyCall.Library.Fuel
import LibPolyCall.Library.Trees
import LibPolyCall.Parser.Optimize

/-!
# The blocks that are collapsed in memory

`optimize_node` of `polycall_parser.c` on nodes in memory, which it frees and links anew while it
goes down a tree. It collapses the tree as `optimizeNode` does without a memory
(`optimizeNode_refines`). The child that takes the place of a block keeps the block as its parent,
which has been freed. Nobody lists the child that becomes the root, so the pointers of the others
fit exactly if no block below the root that is left has exactly one child (`collapses_iff`).
-/

namespace LibPolyCall.Parser

open Fuel Tokenizer Trees

/-- `PolycallASTNode` at its address. A child may be `NULL`. -/
structure MemoryNode (ν : Type*) where
  type : PolycallASTType
  value : PolycallValue
  children : List (Option ν)
  parent : Option ν

/-- The nodes at the addresses. Where a node has been freed there is none. -/
abbrev Memory (ν : Type*) := ν → Option (MemoryNode ν)

namespace Memory

variable {ν : Type*} [DecidableEq ν]

/-- `free(node->children)` and `free(node)`. -/
def free (mem : Memory ν) (node : ν) : Memory ν := Function.update mem node none

/-- `node->children[i] = child`. -/
def setChild (mem : Memory ν) (node : ν) (i : ℕ) (child : Option ν) : Option (Memory ν) := do
  let cell ← mem node
  some (Function.update mem node (some { cell with children := cell.children.set i child }))

/-- The loop over the children of a node, for the child `i`. -/
def optimizeChild (optimize : Memory ν → Option ν → Option (Option ν × Memory ν)) (node : ν)
    (mem : Memory ν) (i : ℕ) : Option (Memory ν) := do
  let cell ← mem node
  let child ← cell.children[i]?
  let (child', mem') ← optimize mem child
  setChild mem' node i child'

/-- `optimize_node`: what it returns, and the memory that it leaves. It has no result where it reads
what has been freed. The children may lead around in a circle, so it is given fuel. -/
def optimizeNode (level : UInt32) : ℕ → Memory ν → Option ν → Option (Option ν × Memory ν)
  | 0, _, _ => none
  | _ + 1, mem, none => some (none, mem)
  | fuel + 1, mem, some node => do
    let cell ← mem node
    -- The other levels do nothing of their own.
    if level = 1 ∧ cell.type = .block ∧ cell.children.length = 1 then
      let child ← cell.children[0]?
      optimizeNode level fuel (free mem node) child
    else
      let mem' ← (List.range cell.children.length).foldlM
        (optimizeChild (optimizeNode level fuel) node) mem
      some (some node, mem')

/-! ## Trees in memory -/

/-- The node at an address, if there is one. -/
def cell (mem : Memory ν) (node : ν) : MemoryNode ν := (mem node).getD ⟨.none, .none, [], none⟩

/-- `node->parent`. -/
def parent (mem : Memory ν) (node : ν) : Option ν := (mem node).bind MemoryNode.parent

/-- `node->type == AST_BLOCK`. -/
def IsBlock (mem : Memory ν) (node : ν) : Prop := (cell mem node).type = .block

/-- Whether a node is a block can be decided. -/
instance (mem : Memory ν) : DecidablePred mem.IsBlock := fun _ =>
  inferInstanceAs (Decidable (_ = _))

/-- The type and the value of a node. -/
def entry (mem : Memory ν) (node : ν) : ν × PolycallASTType × PolycallValue :=
  (node, (cell mem node).type, (cell mem node).value)

/-- From `root`, the children in memory are those of the tree, whose nodes are different ones. -/
structure Shapes (mem : Memory ν) (root : Option ν) (tree : RoseTree ν) : Prop where
  root_eq : root = some tree.label
  nodup : tree.preorder.Nodup
  children_eq : ∀ node ∈ tree.nodes, ∃ cell, mem node.label = some cell ∧
    cell.children = node.children.map fun child => some child.label

/-- Moreover the parent of each child is the node that lists it. -/
structure Holds (mem : Memory ν) (root : Option ν) (tree : RoseTree ν) : Prop
    extends Shapes mem root tree where
  linked : tree.Linked mem.parent

/-- `optimize_node` at level 1 returns a tree without a block that has exactly one child. Its nodes
are those of the given tree in their order but for such blocks, with the types and the values that
they had, and the parent of each child is the node that lists it. -/
def Collapses (mem : Memory ν) (root : Option ν) (tree : RoseTree ν) : Prop :=
  ∃ root' mem' tree', Settles (fun fuel => optimizeNode 1 fuel mem root) (root', mem') ∧
    Holds mem' root' tree' ∧
    (∀ node ∈ tree'.nodes, ¬node.Redundant mem'.IsBlock) ∧
    tree'.preorder.map mem'.entry =
      ((tree.nodes.filter fun node => ¬node.Redundant mem.IsBlock).map RoseTree.label).map mem.entry

/-- The nodes of the tree are in memory as in `cells`, with the children that they have in the
tree. -/
def Stores (cells : ν → MemoryNode ν) (mem : Memory ν) (tree : RoseTree ν) : Prop :=
  ∀ node ∈ tree.nodes, mem node.label =
    some { cells node.label with children := node.children.map fun child => some child.label }

variable {cells : ν → MemoryNode ν} {mem mem' : Memory ν} {root : Option ν} {tree : RoseTree ν}
  {level : UInt32} {p : ν → Prop} [DecidablePred p]

omit [DecidableEq ν] in
/-- What is stored depends on the memory of its nodes only. -/
theorem Stores.congr (h : Stores cells mem tree) (hmem : ∀ a ∈ tree.preorder, mem' a = mem a) :
    Stores cells mem' tree := fun node hnode =>
  (hmem node.label (List.mem_map_of_mem hnode)).trans (h node hnode)

omit [DecidableEq ν] in
/-- A tree is stored just if its root and its subtrees are. -/
theorem stores_node_iff {a : ν} {ts : List (RoseTree ν)} :
    Stores cells mem (.node a ts) ↔
      mem a = some { cells a with children := ts.map fun child => some child.label } ∧
        ∀ t ∈ ts, Stores cells mem t := by
  constructor
  · intro h
    exact ⟨h _ (RoseTree.self_mem_nodes _), fun t ht node hnode =>
      h node (RoseTree.mem_nodes_iff.2 (.inr ⟨t, ht, hnode⟩))⟩
  · rintro ⟨ha, hts⟩ node hnode
    rcases RoseTree.mem_nodes_iff.1 hnode with rfl | ⟨t, ht, hnode⟩
    · exact ha
    · exact hts t ht node hnode

/-! ## The rewriting -/

/-- The memory holds the collapsed tree, and elsewhere what it held before. -/
structure Rewritten (cells : ν → MemoryNode ν) (p : ν → Prop) [DecidablePred p]
    (mem mem' : Memory ν) (tree : RoseTree ν) : Prop where
  stores : Stores cells mem' (tree.collapse p)
  frame : ∀ a, a ∉ tree.preorder → mem' a = mem a

/-- A round of the loop writes what the child is rewritten to into the list. -/
theorem optimizeChild_settles
    {optimize : ℕ → Memory ν → Option ν → Option (Option ν × Memory ν)} {a : ν}
    (done rest : List (Option ν)) {child child' : Option ν}
    (ha : mem a = some { cells a with children := done ++ child :: rest })
    (hsettles : Settles (fun fuel => optimize fuel mem child) (child', mem'))
    (ha' : mem' a = mem a) :
    Settles (fun fuel => optimizeChild (optimize fuel) a mem done.length)
      (Function.update mem' a (some { cells a with children := done ++ child' :: rest })) := by
  have hget : (done ++ child :: rest)[done.length]? = some child := by
    rw [List.getElem?_append_right (Nat.le_refl _), Nat.sub_self]
    rfl
  have hset : setChild mem' a done.length child' =
      some (Function.update mem' a (some { cells a with children := done ++ child' :: rest })) := by
    rw [setChild, ha', ha]
    show some (Function.update mem' a (some _)) = _
    rw [List.set_append_right _ _ (Nat.le_refl _), Nat.sub_self]
    rfl
  have hstep : (fun fuel => optimizeChild (optimize fuel) a mem done.length) = fun fuel =>
      (optimize fuel mem child).bind fun r => setChild r.2 a done.length r.1 := by
    funext fuel
    rw [optimizeChild, ha]
    show ((done ++ child :: rest)[done.length]?).bind _ = _
    rw [hget]
    rfl
  rw [hstep]
  refine hsettles.bind ?_
  rw [hset]
  exact settles_some _

/-- The loop over the children puts what each is rewritten to in its place. -/
theorem optimizeChildren_settles
    {optimize : ℕ → Memory ν → Option ν → Option (Option ν × Memory ν)} {a : ν} :
    ∀ {ts : List (RoseTree ν)} (done : List (Option ν)) {mem : Memory ν},
      (∀ t ∈ ts, ∀ mem, Stores cells mem t → t.preorder.Nodup → ∃ mem',
        Settles (fun fuel => optimize fuel mem (some t.label))
          (some (t.collapse p).label, mem') ∧ Rewritten cells p mem mem' t) →
      mem a = some { cells a with children := done ++ ts.map fun t => some t.label } →
      (∀ t ∈ ts, Stores cells mem t) → (a :: ts.flatMap RoseTree.preorder).Nodup →
      ∃ mem', Settles (fun fuel => (List.range' done.length ts.length).foldlM
          (optimizeChild (optimize fuel) a) mem) mem' ∧
        mem' a = some { cells a with
          children := done ++ ts.map fun t => some (t.collapse p).label } ∧
        (∀ t ∈ ts, Stores cells mem' (t.collapse p)) ∧
        ∀ b, b ∉ a :: ts.flatMap RoseTree.preorder → mem' b = mem b
  | [], done, mem, _, ha, _, _ =>
    ⟨mem, settles_some mem, ha, fun t ht => absurd ht List.not_mem_nil, fun _ _ => rfl⟩
  | t :: ts, done, mem, hoptimize, ha, hstores, hnodup => by
    rw [List.forall_mem_cons] at hoptimize hstores
    rw [List.flatMap_cons, List.nodup_cons, List.mem_append, not_or, List.nodup_append] at hnodup
    obtain ⟨⟨hat, hats⟩, hnodup_t, hnodup_ts, hdisjoint⟩ := hnodup
    obtain ⟨mem₁, hsettles₁, hrewritten⟩ := hoptimize.1 mem hstores.1 hnodup_t
    -- The write to the list touches the node only.
    set mem₂ : Memory ν := Function.update mem₁ a (some { cells a with
      children := done ++ some (t.collapse p).label :: ts.map fun t => some t.label }) with hmem₂
    have ha₂ : mem₂ a = some { cells a with
        children := (done ++ [some (t.collapse p).label]) ++ ts.map fun t => some t.label } := by
      rw [hmem₂, Function.update_self, List.append_assoc]
      rfl
    have hframe₂ : ∀ b, b ≠ a → b ∉ t.preorder → mem₂ b = mem b := fun b hba hbt =>
      (Function.update_of_ne hba _ _).trans (hrewritten.frame b hbt)
    have hround := optimizeChild_settles done (ts.map fun t => some t.label) ha hsettles₁
      (hrewritten.frame a hat)
    have hstores₂ : ∀ u ∈ ts, Stores cells mem₂ u := by
      intro u hu
      refine (hstores.2 u hu).congr fun b hb => hframe₂ b ?_ fun hbt => ?_
      · rintro rfl
        exact hats (List.mem_flatMap.2 ⟨u, hu, hb⟩)
      · exact hdisjoint b hbt b (List.mem_flatMap.2 ⟨u, hu, hb⟩) rfl
    obtain ⟨mem', hsettles, ha', hstores', hframe⟩ := optimizeChildren_settles _ hoptimize.2 ha₂
      hstores₂ (List.nodup_cons.2 ⟨hats, hnodup_ts⟩)
    refine ⟨mem', ?_, ?_, ?_, fun b hb => ?_⟩
    · rw [List.length_append, List.length_singleton] at hsettles
      exact hround.bind hsettles
    · rw [ha', List.append_assoc]
      rfl
    · refine List.forall_mem_cons.2 ⟨hrewritten.stores.congr fun b hb => ?_, hstores'⟩
      -- What the child was rewritten to is no longer touched.
      have hbt := (RoseTree.preorder_collapse_sublist t).subset hb
      have hba : b ≠ a := by
        rintro rfl
        exact hat hbt
      rw [hframe b fun hmem => (List.mem_cons.1 hmem).elim hba
        fun hbts => hdisjoint b hbt b hbts rfl]
      exact Function.update_of_ne hba _ _
    · rw [List.flatMap_cons, List.mem_cons, List.mem_append, not_or, not_or] at hb
      rw [hframe b fun hmem => (List.mem_cons.1 hmem).elim hb.1 hb.2.2]
      exact hframe₂ b hb.1 hb.2.1

/-- At level 1 a block with one child is freed, and the child optimised. -/
theorem optimizeNode_of_only {a : ν} {child : Option ν} (fuel : ℕ)
    (ha : mem a = some { cells a with children := [child] })
    (h : level = 1 ∧ (cells a).type = .block) :
    optimizeNode level (fuel + 1) mem (some a) = optimizeNode level fuel (free mem a) child := by
  rw [optimizeNode, ha]
  exact if_pos ⟨h.1, h.2, rfl⟩

/-- Else the children are optimised in their places. -/
theorem optimizeNode_of_not {a : ν} {children : List (Option ν)} (fuel : ℕ)
    (ha : mem a = some { cells a with children := children })
    (h : ¬(level = 1 ∧ (cells a).type = .block ∧ children.length = 1)) :
    optimizeNode level (fuel + 1) mem (some a) =
      ((List.range' 0 children.length).foldlM (optimizeChild (optimizeNode level fuel) a) mem).map
        fun mem' => (some a, mem') := by
  rw [optimizeNode, ha, Option.map_eq_bind, ← List.range_eq_range']
  exact if_neg h

/-- `optimize_node` returns the root of the collapsed tree, and leaves this tree in memory. -/
theorem optimizeNode_settles (hp : ∀ a, p a ↔ level = 1 ∧ (cells a).type = .block)
    (tree : RoseTree ν) : ∀ mem, Stores cells mem tree → tree.preorder.Nodup → ∃ mem',
      Settles (fun fuel => optimizeNode level fuel mem (some tree.label))
        (some (tree.collapse p).label, mem') ∧ Rewritten cells p mem mem' tree := by
  -- The induction is on the tree, for every memory: a block is freed before its child is visited.
  induction tree using RoseTree.induction with
  | node a ts ih =>
    intro mem hstores hnodup
    obtain ⟨ha, hts⟩ := stores_node_iff.1 hstores
    rw [RoseTree.preorder_node] at hnodup
    by_cases h : (RoseTree.node a ts).Redundant p
    · -- A redundant block is freed, and the call goes on with its only child.
      obtain ⟨hpa, t, rfl⟩ := h.exists_child
      rw [List.flatMap_singleton, List.nodup_cons] at hnodup
      have hfree : ∀ b, b ≠ a → free mem a b = mem b := fun b hba => Function.update_of_ne hba _ _
      have hstores' : Stores cells (free mem a) t := by
        refine (hts t List.mem_cons_self).congr fun b hb => hfree b ?_
        rintro rfl
        exact hnodup.1 hb
      obtain ⟨mem', hsettles, hrewritten⟩ := ih t List.mem_cons_self _ hstores' hnodup.2
      rw [RoseTree.collapse_of_redundant hpa]
      refine ⟨mem', Settles.succ rfl ?_, ?_, fun b hb => ?_⟩
      · show Settles (fun fuel => optimizeNode level (fuel + 1) mem (some a)) _
        simp only [optimizeNode_of_only _ ha ((hp a).1 hpa)]
        exact hsettles
      · rw [RoseTree.collapse_of_redundant hpa]
        exact hrewritten.stores
      · rw [RoseTree.preorder_node, List.flatMap_singleton, List.mem_cons, not_or] at hb
        exact (hrewritten.frame b hb.2).trans (hfree b hb.1)
    · -- Any other node stays, and its children are optimised in turn.
      obtain ⟨mem', hsettles, ha', hstores', hframe⟩ :=
        optimizeChildren_settles [] ih ha hts hnodup
      rw [RoseTree.collapse_of_not_redundant h]
      refine ⟨mem', Settles.succ rfl ?_, ?_, fun b hb => ?_⟩
      · have hnot : ¬(level = 1 ∧ (cells a).type = .block ∧
            (ts.map fun child => some child.label).length = 1) := by
          rw [List.length_map]
          exact fun hall => h ⟨(hp a).2 ⟨hall.1, hall.2.1⟩, hall.2.2⟩
        show Settles (fun fuel => optimizeNode level (fuel + 1) mem (some a)) (some a, mem')
        simp only [optimizeNode_of_not _ ha hnot, List.length_map]
        exact hsettles.map fun mem' => (some a, mem')
      · rw [RoseTree.collapse_of_not_redundant h, stores_node_iff, List.map_map]
        refine ⟨ha', fun u hu => ?_⟩
        obtain ⟨t, ht, rfl⟩ := List.mem_map.1 hu
        exact hstores' t ht
      · rw [RoseTree.preorder_node] at hb
        exact hframe b hb

/-! ## The tree that is returned -/

omit [DecidableEq ν] in
/-- The cells of a memory that has the shape of a tree store the tree. -/
theorem Shapes.stores (h : Shapes mem root tree) : Stores mem.cell mem tree := by
  intro node hnode
  obtain ⟨cell, hcell, hchildren⟩ := h.children_eq node hnode
  rw [Memory.cell, hcell, Option.getD_some, ← hchildren]

omit [DecidableEq ν] in
/-- A tree that is stored, with different nodes, is the shape of its memory. -/
theorem Stores.shapes (h : Stores cells mem tree) (hnodup : tree.preorder.Nodup) :
    Shapes mem (some tree.label) tree :=
  ⟨rfl, hnodup, fun node hnode => ⟨_, h node hnode, rfl⟩⟩

omit [DecidableEq ν] in
/-- A stored node has the type, the value and the parent of its cell. -/
theorem Stores.cell_eq (h : Stores cells mem tree) {a : ν} (ha : a ∈ tree.preorder) :
    (mem.cell a).type = (cells a).type ∧ (mem.cell a).value = (cells a).value ∧
      mem.parent a = (cells a).parent := by
  obtain ⟨node, hnode, rfl⟩ := List.mem_map.1 ha
  rw [Memory.cell, Memory.parent, h node hnode]
  exact ⟨rfl, rfl, rfl⟩

omit [DecidableEq ν] in
/-- There is one tree from a root. -/
theorem Stores.unique {cells' : ν → MemoryNode ν} (tree : RoseTree ν) : ∀ {tree' : RoseTree ν},
    Stores cells mem tree → Stores cells' mem tree' → tree.label = tree'.label → tree = tree' := by
  induction tree using RoseTree.induction with
  | node a ts ih =>
    rintro ⟨b, us⟩ h h' rfl
    obtain ⟨ha, hts⟩ := stores_node_iff.1 h
    obtain ⟨hb, hus⟩ := stores_node_iff.1 h'
    have hlabels : ts.map (fun t => some t.label) = us.map fun u => some u.label :=
      congrArg MemoryNode.children (Option.some.inj (ha.symm.trans hb))
    have hlength : ts.length = us.length := by
      simpa only [List.length_map] using congrArg List.length hlabels
    congr 1
    refine List.ext_getElem hlength fun i hi hi' => ?_
    refine ih _ (List.getElem_mem hi) (hts _ (List.getElem_mem hi))
      (hus _ (List.getElem_mem hi')) ?_
    have hget := congrArg (fun labels => labels[i]?) hlabels
    simpa only [List.getElem?_map, List.getElem?_eq_getElem hi, List.getElem?_eq_getElem hi',
      Option.map_some, Option.some_inj] using hget

/-! ## The tree without its memory -/

mutual

/-- A tree of nodes as a syntax tree. -/
def toNode (cells : ν → MemoryNode ν) : RoseTree ν → PolycallASTNode
  | .node a ts => .mk (cells a).type (cells a).value (toNodes cells ts)

/-- Some trees of nodes as syntax trees. -/
def toNodes (cells : ν → MemoryNode ν) : List (RoseTree ν) → List PolycallASTNode
  | [] => []
  | t :: ts => toNode cells t :: toNodes cells ts

end

omit [DecidableEq ν] in
/-- A tree is a syntax tree of its root and of its subtrees. -/
theorem toNode_node (a : ν) (ts : List (RoseTree ν)) :
    toNode cells (.node a ts) = .mk (cells a).type (cells a).value (ts.map (toNode cells)) := by
  rw [toNode]
  congr 1
  induction ts with
  | nil => rfl
  | cons t ts ih => rw [toNodes, ih, List.map_cons]

omit [DecidableEq ν] in
/-- The syntax tree depends on nothing but the types and the values. -/
theorem toNode_congr {cells' : ν → MemoryNode ν} (tree : RoseTree ν) :
    (∀ a ∈ tree.preorder, (cells' a).type = (cells a).type ∧ (cells' a).value = (cells a).value) →
      toNode cells' tree = toNode cells tree := by
  induction tree using RoseTree.induction with
  | node a ts ih =>
    intro h
    rw [RoseTree.preorder_node, List.forall_mem_cons] at h
    rw [toNode_node, toNode_node, h.1.1, h.1.2]
    congr 1
    exact List.map_congr_left fun t ht => ih t ht fun b hb => h.2 b (List.mem_flatMap.2 ⟨t, ht, hb⟩)

omit [DecidableEq ν] in
/-- The collapsed tree is the optimised syntax tree. -/
theorem toNode_collapse (hp : ∀ a, p a ↔ level = 1 ∧ (cells a).type = .block) (tree : RoseTree ν) :
    toNode cells (tree.collapse p) = Parser.optimizeNode level (toNode cells tree) := by
  induction tree using RoseTree.induction with
  | node a ts ih =>
    by_cases h : (RoseTree.node a ts).Redundant p
    · obtain ⟨hpa, t, rfl⟩ := h.exists_child
      rw [RoseTree.collapse_of_redundant hpa, ih t List.mem_cons_self, toNode_node,
        List.map_singleton, Parser.optimizeNode, if_pos ((hp a).1 hpa)]
    · have hnot : ¬(level = 1 ∧ (cells a).type = .block ∧ (ts.map (toNode cells)).length = 1) := by
        rw [List.length_map]
        exact fun hall => h ⟨(hp a).2 ⟨hall.1, hall.2.1⟩, hall.2.2⟩
      rw [RoseTree.collapse_of_not_redundant h, toNode_node, toNode_node,
        optimizeNode_mk_of_not _ hnot, List.map_map, List.map_map]
      congr 1
      exact List.map_congr_left ih

/-- In memory, `optimize_node` makes of the syntax tree what `optimizeNode` does. -/
theorem optimizeNode_refines (level : UInt32) (h : Shapes mem root tree) :
    ∃ root' mem' tree', Settles (fun fuel => optimizeNode level fuel mem root) (root', mem') ∧
      Shapes mem' root' tree' ∧
      toNode mem'.cell tree' = Parser.optimizeNode level (toNode mem.cell tree) := by
  have hp : ∀ a, level = 1 ∧ mem.IsBlock a ↔ level = 1 ∧ (mem.cell a).type = .block :=
    fun _ => Iff.rfl
  obtain ⟨mem', hsettles, hstores, -⟩ := optimizeNode_settles hp tree mem h.stores h.nodup
  rw [← h.root_eq] at hsettles
  have hnodup := (RoseTree.preorder_collapse_sublist
    (p := fun a => level = 1 ∧ mem.IsBlock a) tree).nodup h.nodup
  refine ⟨_, mem', _, hsettles, hstores.shapes hnodup, ?_⟩
  rw [← toNode_collapse hp]
  exact toNode_congr _ fun a ha => ⟨(hstores.cell_eq ha).1, (hstores.cell_eq ha).2.1⟩

/-! ## The pointers to the parents -/

/-- The tree is collapsed as it should be exactly if the pointers that it has fit the collapsed
tree. -/
theorem collapses_iff_linked (h : Shapes mem root tree) :
    Collapses mem root tree ↔ (tree.collapse mem.IsBlock).Linked mem.parent := by
  have hp : ∀ a, mem.IsBlock a ↔ (1 : UInt32) = 1 ∧ (mem.cell a).type = .block := fun a =>
    (and_iff_right rfl).symm
  obtain ⟨mem', hsettles, hstores, -⟩ := optimizeNode_settles hp tree mem h.stores h.nodup
  rw [← h.root_eq] at hsettles
  have hsub := RoseTree.preorder_collapse_sublist (p := mem.IsBlock) tree
  -- The nodes that are left are what they were.
  have hcell : ∀ a ∈ (tree.collapse mem.IsBlock).preorder, mem'.entry a = mem.entry a ∧
      mem'.parent a = mem.parent a := by
    intro a ha
    obtain ⟨htype, hvalue, hparent⟩ := hstores.cell_eq ha
    have hbefore := h.stores.cell_eq (hsub.subset ha)
    refine ⟨?_, hparent.trans hbefore.2.2.symm⟩
    rw [entry, entry, htype, hvalue]
  constructor
  · rintro ⟨root', mem'', tree', hsettles', hholds, -⟩
    obtain ⟨rfl, rfl⟩ := Prod.mk.inj (hsettles.unique hsettles')
    have htree : tree.collapse mem.IsBlock = tree' :=
      Stores.unique _ hstores hholds.stores (Option.some.inj hholds.root_eq)
    rw [htree]
    exact hholds.linked.congr fun a ha => (hcell a (htree ▸ ha)).2.symm
  · intro hlinked
    refine ⟨_, mem', _, hsettles, ⟨hstores.shapes (hsub.nodup h.nodup), ?_⟩, ?_, ?_⟩
    · exact hlinked.congr fun a ha => (hcell a ha).2
    · intro node hnode hredundant
      have htype : (mem'.cell node.label).type = (mem.cell node.label).type :=
        congrArg (fun e : ν × PolycallASTType × PolycallValue => e.2.1)
          (hcell node.label (List.mem_map_of_mem hnode)).1
      exact RoseTree.not_redundant_collapse tree hnode ⟨htype.symm.trans hredundant.1, hredundant.2⟩
    · rw [List.map_congr_left fun a ha => (hcell a ha).1, RoseTree.preorder_collapse]
      rfl

/-- Three nodes of these types, each the only child of the one before. -/
def chain (type type' type'' : PolycallASTType) : Memory ℕ := fun node =>
  [(⟨type, .none, [some 1], none⟩ : MemoryNode ℕ), ⟨type', .none, [some 2], some 0⟩,
    ⟨type'', .none, [], some 1⟩][node]?

/-- Their tree. -/
def chainTree : RoseTree ℕ := .node 0 [.node 1 [.node 2 []]]

/-- The memory holds it. -/
theorem chain_holds (type type' type'' : PolycallASTType) :
    Holds (chain type type' type'') (some 0) chainTree := by
  have hnodes : chainTree.nodes = [chainTree, .node 1 [.node 2 []], .node 2 []] := rfl
  refine ⟨⟨rfl, by decide, ?_⟩, ?_⟩
  · rw [hnodes]
    simp only [List.forall_mem_cons]
    exact ⟨⟨_, rfl, rfl⟩, ⟨_, rfl, rfl⟩, ⟨_, rfl, rfl⟩, fun _ h => absurd h List.not_mem_nil⟩
  · rw [RoseTree.Linked, hnodes]
    simp only [List.forall_mem_cons, chainTree, RoseTree.children, List.not_mem_nil, false_imp_iff,
      implies_true, and_true]
    exact ⟨rfl, rfl⟩

/-- `optimize_node` at level 1 collapses a tree as it should exactly if, below the node that is left
as its root when the blocks with exactly one child that lead down from its root are gone, there is
no block with exactly one child. -/
theorem collapses_iff (h : Holds mem root tree) :
    Collapses mem root tree ↔
      ∀ child ∈ (tree.top mem.IsBlock).children, ∀ node ∈ child.nodes,
        ¬node.Redundant mem.IsBlock :=
  (collapses_iff_linked h.toShapes).trans (RoseTree.linked_collapse_iff tree h.nodup h.linked)

/-- A block whose child is a program with a function. -/
theorem collapses_iff_program :
    Collapses (chain .block .program .function) (some 0) chainTree := by
  refine (collapses_iff (chain_holds ..)).2 ?_
  change ∀ child ∈ [RoseTree.node 2 []], ∀ node ∈ child.nodes, ¬node.Redundant _
  rw [List.forall_mem_singleton]
  change ∀ node ∈ [RoseTree.node 2 []], ¬node.Redundant _
  rw [List.forall_mem_singleton]
  exact fun h => absurd h.2 (by decide)

/-- A program with a block with a function: the function is left with the freed block as its
parent. -/
theorem block_leaves_freed_parent :
    Holds (chain .program .block .function) (some 0) chainTree ∧
      ¬Collapses (chain .program .block .function) (some 0) chainTree := by
  refine ⟨chain_holds .., fun h => ?_⟩
  have hlinked := (collapses_iff_linked (chain_holds ..).toShapes).1 h
  have hparent := hlinked (.node 0 [.node 2 []]) List.mem_cons_self (.node 2 []) List.mem_cons_self
  exact absurd hparent (by decide)

end Memory

end LibPolyCall.Parser
