import Mathlib.Data.List.Nodup
import Mathlib.Tactic.Common

/-!
# Collapsing a tree

Trees of labels. Collapsing puts the only child of a node with a given property in the place of the
node, wherever this can be done. It leaves the other nodes in their order (`preorder_collapse`), and
nothing to collapse (`not_redundant_collapse`). Where every label points to that of the node above
it, the pointers fit the collapsed tree exactly if nothing is collapsed but at the root
(`linked_collapse_iff`).
-/

namespace Trees

/-- A node with its label and the trees below it. -/
inductive RoseTree (α : Type*) where
  | node (label : α) (children : List (RoseTree α))

namespace RoseTree

variable {α : Type*}

/-- The label of the root. -/
def label : RoseTree α → α
  | node a _ => a

/-- The subtrees right below the root. -/
def children : RoseTree α → List (RoseTree α)
  | node _ ts => ts

mutual

/-- The nodes of a tree in pre-order, each with what is below it. -/
def nodes : RoseTree α → List (RoseTree α)
  | node a ts => node a ts :: nodesAll ts

/-- The nodes of some trees. -/
def nodesAll : List (RoseTree α) → List (RoseTree α)
  | [] => []
  | t :: ts => nodes t ++ nodesAll ts

end

/-- The labels in pre-order. -/
def preorder (t : RoseTree α) : List α := t.nodes.map label

/-- Every label points to that of the node above it. -/
def Linked (parent : α → Option α) (t : RoseTree α) : Prop :=
  ∀ s ∈ t.nodes, ∀ c ∈ s.children, parent c.label = some s.label

/-- What holds of a node when it holds of the trees below it holds of every tree. -/
@[elab_as_elim]
theorem induction {motive : RoseTree α → Prop}
    (node : ∀ a ts, (∀ t ∈ ts, motive t) → motive (.node a ts)) : ∀ t, motive t
  | .node a ts => node a ts fun t _ => induction node t

/-- The nodes of a list of trees are those of each in turn. -/
theorem nodesAll_eq (ts : List (RoseTree α)) : nodesAll ts = ts.flatMap nodes := by
  induction ts with
  | nil => rfl
  | cons t ts ih => rw [nodesAll, ih, List.flatMap_cons]

/-- The nodes of a tree are the tree itself and those below it. -/
theorem nodes_node (a : α) (ts : List (RoseTree α)) :
    (node a ts).nodes = node a ts :: ts.flatMap nodes := by
  rw [nodes, nodesAll_eq]

/-- The labels of a tree are that of its root and those below it. -/
theorem preorder_node (a : α) (ts : List (RoseTree α)) :
    (node a ts).preorder = a :: ts.flatMap preorder := by
  rw [preorder, nodes_node, List.map_cons, List.map_flatMap]
  rfl

/-- A tree is one of its nodes. -/
theorem self_mem_nodes (t : RoseTree α) : t ∈ t.nodes := by
  cases t with
  | node a ts =>
    rw [nodes_node]
    exact List.mem_cons_self

/-- The label of the root is one of the labels. -/
theorem label_mem_preorder (t : RoseTree α) : t.label ∈ t.preorder :=
  List.mem_map_of_mem t.self_mem_nodes

/-- The nodes of a tree are the tree and the nodes of the trees below it. -/
theorem mem_nodes_iff {s t : RoseTree α} : s ∈ t.nodes ↔ s = t ∨ ∃ c ∈ t.children, s ∈ c.nodes := by
  cases t with
  | node a ts =>
    rw [nodes_node, List.mem_cons, List.mem_flatMap]
    rfl

/-- The children of the nodes are nodes. -/
theorem mem_nodes_of_child {s c t : RoseTree α} (hc : c ∈ s.children) :
    s ∈ t.nodes → c ∈ t.nodes := by
  induction t using RoseTree.induction with
  | node a ts ih =>
    intro hs
    rcases mem_nodes_iff.1 hs with rfl | ⟨d, hd, hsd⟩
    · exact mem_nodes_iff.2 (.inr ⟨c, hc, c.self_mem_nodes⟩)
    · exact mem_nodes_iff.2 (.inr ⟨d, hd, ih d hd hsd⟩)

/-- A node below another one is listed by a node. -/
theorem exists_parent {s c : RoseTree α} (hs : s ∈ c.nodes) :
    ∀ {t : RoseTree α}, c ∈ t.children → ∃ u ∈ t.nodes, s ∈ u.children := by
  induction c using RoseTree.induction with
  | node a ts ih =>
    intro t hc
    rcases mem_nodes_iff.1 hs with rfl | ⟨d, hd, hsd⟩
    · exact ⟨t, t.self_mem_nodes, hc⟩
    · obtain ⟨u, hu, hsu⟩ := ih d hd hsd hd
      exact ⟨u, mem_nodes_iff.2 (.inr ⟨_, hc, hu⟩), hsu⟩

/-- In a linked tree the children are linked. -/
theorem Linked.child {parent : α → Option α} {c t : RoseTree α} (h : t.Linked parent)
    (hc : c ∈ t.children) : c.Linked parent :=
  fun s hs => h s (mem_nodes_iff.2 (.inr ⟨c, hc, hs⟩))

/-- Whether the labels of a tree point to those above them depends on nothing but their pointers. -/
theorem Linked.congr {parent parent' : α → Option α} {t : RoseTree α} (h : t.Linked parent)
    (heq : ∀ a ∈ t.preorder, parent' a = parent a) : t.Linked parent' := fun s hs c hc =>
  (heq c.label (List.mem_map_of_mem (mem_nodes_of_child hc hs))).trans (h s hs c hc)

section Collapse

variable (p : α → Prop)

/-- The node has the property and exactly one child. -/
def Redundant (t : RoseTree α) : Prop := p t.label ∧ t.children.length = 1

variable {p} in
/-- A redundant node has one child. -/
theorem Redundant.exists_child {a : α} {ts : List (RoseTree α)} (h : Redundant p (node a ts)) :
    p a ∧ ∃ t, ts = [t] :=
  ⟨h.1, List.length_eq_one_iff.1 h.2⟩

variable [DecidablePred p]

/-- Whether a node is redundant can be decided where the predicate can. -/
instance (t : RoseTree α) : Decidable (Redundant p t) := inferInstanceAs (Decidable (_ ∧ _))

/-- A node over some trees, or the only one of them if the node has the property. -/
def join (a : α) : List (RoseTree α) → RoseTree α
  | [t] => if p a then t else node a [t]
  | ts => node a ts

mutual

/-- The tree with the only child in the place of every node that has the property and one child. -/
def collapse : RoseTree α → RoseTree α
  | node a ts => join p a (collapseAll ts)

/-- The trees, each collapsed. -/
def collapseAll : List (RoseTree α) → List (RoseTree α)
  | [] => []
  | t :: ts => collapse t :: collapseAll ts

end

/-- The tree collapsed at its root only. -/
def top : RoseTree α → RoseTree α
  | node a [t] => if p a then top t else node a [t]
  | t => t

/-- The labels in pre-order but for those of redundant nodes. -/
def essential (t : RoseTree α) : List α := (t.nodes.filter fun s => ¬Redundant p s).map label

variable {p}

/-- A list of trees is collapsed tree by tree. -/
theorem collapseAll_eq (ts : List (RoseTree α)) : collapseAll p ts = ts.map (collapse p) := by
  induction ts with
  | nil => rfl
  | cons t ts ih => rw [collapseAll, ih, List.map_cons]

/-- A redundant node collapses to its child. -/
theorem collapse_of_redundant {a : α} (ha : p a) (t : RoseTree α) :
    collapse p (node a [t]) = collapse p t := by
  rw [collapse, collapseAll_eq, List.map_singleton, join, if_pos ha]

/-- The top of a redundant node is that of its child. -/
theorem top_of_redundant {a : α} (ha : p a) (t : RoseTree α) : top p (node a [t]) = top p t := by
  rw [top, if_pos ha]

/-- Another node stays, over its collapsed children. -/
theorem collapse_of_not_redundant {a : α} {ts : List (RoseTree α)} (h : ¬Redundant p (node a ts)) :
    collapse p (node a ts) = node a (ts.map (collapse p)) := by
  rw [collapse, collapseAll_eq]
  match ts with
  | [] => rfl
  | [t] => exact if_neg fun ha => h ⟨ha, rfl⟩
  | _ :: _ :: _ => rfl

/-- What is not redundant is its own top. -/
theorem top_of_not_redundant {t : RoseTree α} (h : ¬Redundant p t) : top p t = t := by
  match t with
  | node a [] => rfl
  | node a [t] => exact if_neg fun ha => h ⟨ha, rfl⟩
  | node a (_ :: _ :: _) => rfl

/-- The essential labels of a tree: that of its root, unless it is redundant, and those below. -/
theorem essential_node (a : α) (ts : List (RoseTree α)) :
    essential p (node a ts) =
      if Redundant p (node a ts) then ts.flatMap (essential p)
      else a :: ts.flatMap (essential p) := by
  have hbelow : ((ts.flatMap nodes).filter fun s => ¬Redundant p s).map label =
      ts.flatMap (essential p) := by
    rw [List.filter_flatMap, List.map_flatMap]
    rfl
  rw [essential, nodes_node, List.filter_cons]
  by_cases h : Redundant p (node a ts)
  · rw [if_neg (by simpa using h), if_pos h, hbelow]
  · rw [if_pos (by simpa using h), if_neg h, List.map_cons, hbelow]
    rfl

/-- Collapsing leaves the nodes that are not redundant, in their order. -/
theorem preorder_collapse (t : RoseTree α) : (collapse p t).preorder = essential p t := by
  induction t using RoseTree.induction with
  | node a ts ih =>
    rw [essential_node]
    by_cases h : Redundant p (node a ts)
    · obtain ⟨ha, t, rfl⟩ := h.exists_child
      rw [if_pos h, collapse_of_redundant ha, ih t List.mem_cons_self, List.flatMap_singleton]
    · rw [if_neg h, collapse_of_not_redundant h, preorder_node, List.flatMap_map]
      exact congrArg (a :: ·) (List.flatMap_congr ih)

/-- Nothing is left to collapse. -/
theorem not_redundant_collapse {s : RoseTree α} (t : RoseTree α) :
    s ∈ (collapse p t).nodes → ¬Redundant p s := by
  induction t using RoseTree.induction with
  | node a ts ih =>
    intro hs
    by_cases h : Redundant p (node a ts)
    · obtain ⟨ha, t, rfl⟩ := h.exists_child
      rw [collapse_of_redundant ha] at hs
      exact ih t List.mem_cons_self hs
    · rw [collapse_of_not_redundant h] at hs
      rcases mem_nodes_iff.1 hs with rfl | ⟨c, hc, hsc⟩
      · -- The node has as many children as before.
        exact fun hnew => h ⟨hnew.1, (List.length_map _).symm.trans hnew.2⟩
      · obtain ⟨t, ht, rfl⟩ := List.mem_map.1 hc
        exact ih t ht hsc

/-- Where nothing is redundant, nothing changes. -/
theorem collapse_eq_self {t : RoseTree α} : (∀ s ∈ t.nodes, ¬Redundant p s) → collapse p t = t := by
  induction t using RoseTree.induction with
  | node a ts ih =>
    intro h
    rw [collapse_of_not_redundant (h _ (self_mem_nodes _))]
    congr 1
    refine (List.map_congr_left fun t ht => ?_).trans (List.map_id ts)
    exact ih t ht fun s hs => h s (mem_nodes_iff.2 (.inr ⟨t, ht, hs⟩))

/-- The labels of the collapsed tree are among those of the tree, in their order. -/
theorem preorder_collapse_sublist (t : RoseTree α) :
    (collapse p t).preorder.Sublist t.preorder := by
  rw [preorder_collapse]
  exact List.filter_sublist.map label

variable {parent : α → Option α}

/-- What a redundant node collapses to points into the tree of this node. -/
theorem exists_parent_collapse {c : RoseTree α} (hlinked : c.Linked parent) (h : Redundant p c) :
    ∃ b ∈ c.preorder, parent (collapse p c).label = some b := by
  cases c with
  | node a ts =>
    obtain ⟨ha, d, rfl⟩ := h.exists_child
    have hlabel : (collapse p d).label ∈ d.preorder :=
      (preorder_collapse_sublist d).subset (label_mem_preorder _)
    obtain ⟨s, hs, heq⟩ := List.mem_map.1 hlabel
    have hd : d ∈ (node a [d]).children := List.mem_cons_self
    obtain ⟨u, hu, hsu⟩ := exists_parent hs hd
    rw [collapse_of_redundant ha, ← heq]
    exact ⟨u.label, List.mem_map_of_mem hu, hlinked u hu s hsu⟩

/-- The pointers of a tree fit the collapsed tree exactly if nothing is redundant below the root
that is left. -/
theorem linked_collapse_iff (t : RoseTree α) : t.preorder.Nodup → t.Linked parent →
    ((collapse p t).Linked parent ↔ ∀ c ∈ (top p t).children, ∀ s ∈ c.nodes, ¬Redundant p s) := by
  induction t using RoseTree.induction with
  | node a ts ih =>
    intro hnodup hlinked
    by_cases h : Redundant p (node a ts)
    · obtain ⟨ha, t, rfl⟩ := h.exists_child
      rw [collapse_of_redundant ha, top_of_redundant ha]
      rw [preorder_node, List.flatMap_singleton, List.nodup_cons] at hnodup
      exact ih t List.mem_cons_self hnodup.2 (hlinked.child List.mem_cons_self)
    rw [top_of_not_redundant h]
    constructor
    · rw [collapse_of_not_redundant h]
      intro hcollapsed c hc
      have hmem : collapse p c ∈ (node a (ts.map (collapse p))).children :=
        List.mem_map_of_mem hc
      rw [preorder_node, List.nodup_cons, List.nodup_flatMap] at hnodup
      -- A redundant child is no longer there to be pointed to.
      have hchild : ¬Redundant p c := by
        intro hredundant
        obtain ⟨b, hb, hparent⟩ := exists_parent_collapse (hlinked.child hc) hredundant
        have hroot := hcollapsed _ (self_mem_nodes _) _ hmem
        obtain rfl : b = a := Option.some.inj (hparent.symm.trans hroot)
        exact hnodup.1 (List.mem_flatMap.2 ⟨c, hc, hb⟩)
      have hbelow := (ih c hc (hnodup.2.1 c hc) (hlinked.child hc)).1 (hcollapsed.child hmem)
      rw [top_of_not_redundant hchild] at hbelow
      intro s hs
      rcases mem_nodes_iff.1 hs with rfl | ⟨d, hd, hsd⟩
      · exact hchild
      · exact hbelow d hd s hsd
    · intro hbelow
      rw [collapse_eq_self]
      · exact hlinked
      · intro s hs
        rcases mem_nodes_iff.1 hs with rfl | ⟨c, hc, hsc⟩
        · exact h
        · exact hbelow c hc s hsc

end Collapse

end RoseTree

end Trees
