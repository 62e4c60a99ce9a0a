import LibPolyCall.Library.Forest
import LibPolyCall.Library.Fuel
import Mathlib.Data.List.ReduceOption

/-!
# The validation of a tree

`polycall_ast_validate` on nodes that are linked in any way, as `polycall_ast_add_child` can link
them: a node may be listed twice or not point to the node that lists it, and children may lead
around in a circle. It counts the nodes first and looks at how they are linked only then, so it does
not return where they lead around in a circle, and where a node is listed twice by one node it takes
the number of ways to the nodes for their number (`validates_iff`).
-/

namespace LibPolyCall.Parser

open Fuel Forest

/-- `DEFAULT_MAX_DEPTH`. -/
def defaultMaxDepth : ℕ := 256

/-- `PolycallAST` with the nodes of type `ν` that its tree is made of: the children of each, `NULL`
among them, and its parent. -/
structure GraphAST (ν : Type*) where
  root : Option ν
  nodeCount : UInt32
  children : ν → List (Option ν)
  parent : ν → Option ν

variable {ν σ : Type*}

namespace GraphAST

/-- `polycall_ast_visit`. Where the children lead around in a circle it does not end, so it is given
fuel. -/
def astVisit (ast : GraphAST ν) (visitor : ν → σ → σ) : ℕ → σ → Option ν → Option σ
  | 0, _, _ => none
  | _ + 1, data, none => some data
  | fuel + 1, data, some node =>
    (ast.children node).foldlM (astVisit ast visitor fuel) (visitor node data)

/-- `count_node`. -/
def countNode (_ : ν) (count : UInt32) : UInt32 := count + 1

variable [DecidableEq ν]

/-- `validate_node_structure`. -/
def validateNodeStructure (ast : GraphAST ν) (node : Option ν) (depth maxDepth : ℕ) : Bool :=
  match node with
  | none => false
  | some node =>
    if _h : maxDepth < depth then false
    else
      (ast.children node).all fun child =>
        match child with
        | none => false
        | some child => ast.parent child = some node &&
          validateNodeStructure ast (some child) (depth + 1) maxDepth
termination_by maxDepth + 1 - depth

/-- `polycall_ast_validate`. -/
def astValidate (ast : GraphAST ν) (fuel : ℕ) : Option Bool :=
  match ast.root with
  | none => some false
  | some root =>
    (ast.astVisit countNode fuel 0 (some root)).map fun countedNodes =>
      if countedNodes ≠ ast.nodeCount then false
      else ast.validateNodeStructure (some root) 0 defaultMaxDepth

end GraphAST

/-! ## Well-formed trees -/

namespace GraphAST

/-- How the nodes are linked. -/
def links (ast : GraphAST ν) : Links ν := ⟨fun node => (ast.children node).reduceOption, ast.parent⟩

/-- No child below the root is `NULL`, each has the node that lists it as its parent, and none is
deeper than it may be. -/
structure Structured (ast : GraphAST ν) (root : ν) : Prop where
  nonNull : ∀ a, ast.links.Below root a → none ∉ ast.children a
  parent_eq : ∀ a c, ast.links.Below root a → some c ∈ ast.children a → ast.parent c = some a
  depth : ∀ n x, ast.links.Down n root x → n ≤ defaultMaxDepth

/-- The nodes that the root leads to form a tree of the depth that is allowed: every other one is at
exactly one place in their lists, the root at none, and `node_count` is their number. -/
structure WellFormed (ast : GraphAST ν) (root : ν) : Prop extends Structured ast root where
  once : ∀ c, ast.links.Below root c → c ≠ root → ∃! place : ν × ℕ,
    ast.links.Below root place.1 ∧ (ast.children place.1)[place.2]? = some (some c)
  unlisted : ∀ a, ast.links.Below root a → some root ∉ ast.children a
  count : ast.nodeCount.toNat = ast.links.size root

/-- A node below the root lists a node twice. -/
def Repeats (ast : GraphAST ν) (root : ν) : Prop :=
  ∃ a, ast.links.Below root a ∧ ¬ (ast.children a).Nodup

/-- The validation returns, and accepts exactly the well-formed trees. -/
def Validates [DecidableEq ν] (ast : GraphAST ν) : Prop :=
  ∃ answer, Settles ast.astValidate answer ∧
    (answer = true ↔ ∃ root, ast.root = some root ∧ ast.WellFormed root)

variable {ast : GraphAST ν} {root node a c : ν}

/-- The links of a node are those of its children that are not `NULL`. -/
theorem mem_links : c ∈ ast.links.children a ↔ some c ∈ ast.children a :=
  List.reduceOption_mem_iff

/-! ## The count -/

/-- What the visit of a child adds to the count: the ways down from it. -/
def addWays (ast : GraphAST ν) (n : ℕ) (count : UInt32) (child : Option ν) : UInt32 :=
  count + UInt32.ofNat ((child.map (ast.links.ways n)).getD 0)

/-- The count of the nodes below the children, modulo `2^32`. -/
theorem foldl_addWays (n : ℕ) (children : List (Option ν)) (count : UInt32) :
    children.foldl (addWays ast n) count =
      count + UInt32.ofNat (children.reduceOption.map (ast.links.ways n)).sum := by
  induction children generalizing count with
  | nil => exact (UInt32.add_zero count).symm
  | cons child children ih =>
    rw [List.foldl_cons, ih]
    cases child with
    | none =>
      rw [List.reduceOption_cons_of_none]
      exact congrArg (· + _) (UInt32.add_zero count)
    | some c =>
      rw [List.reduceOption_cons_of_some, List.map_cons, List.sum_cons, UInt32.ofNat_add,
        ← UInt32.add_assoc]
      rfl

/-- The visit adds the ways down to the count, where the children do not lead around in a
circle. -/
theorem astVisit_settles [Finite ν] (h : ast.links.AcyclicBelow root) :
    ∀ {n : ℕ} {a : ν}, ast.links.Below root a → ast.links.size a ≤ n → ∀ count : UInt32,
      Settles (fun fuel => ast.astVisit countNode fuel count (some a))
        (count + UInt32.ofNat (ast.links.ways n a))
  | 0, a, _, hn, _ => absurd hn (Nat.not_le.2 Links.size_pos)
  | n + 1, a, ha, hn, count => by
    have hchildren : ∀ child ∈ ast.children a, ∀ count,
        Settles (fun fuel => ast.astVisit countNode fuel count child)
          (addWays ast n count child) := by
      intro child hchild count
      cases child with
      | none =>
        have hnone : addWays ast n count none = count := UInt32.add_zero count
        rw [hnone]
        exact Settles.succ rfl (settles_some count)
      | some c =>
        have hc : ast.links.Lists a c := mem_links.2 hchild
        refine astVisit_settles h (ha.tail hc) ?_ count
        exact Nat.le_of_lt_succ ((h.size_lt ha hc).trans_le hn)
    have hvalue : count + UInt32.ofNat (ast.links.ways (n + 1) a) =
        (ast.children a).foldl (addWays ast n) (countNode a count) := by
      rw [foldl_addWays, Links.ways, UInt32.ofNat_add, UInt32.add_comm (UInt32.ofNat _),
        ← UInt32.add_assoc]
      rfl
    rw [hvalue]
    exact Settles.succ rfl (settles_foldlM (countNode a count) hchildren)

/-- Somewhere below the node, the children lead around in a circle. -/
def Looping (ast : GraphAST ν) (a : ν) : Prop := ∃ x, ast.links.Below a x ∧ ast.links.Above x x

/-- A circle below a node is below one of its children. -/
theorem Looping.exists_child (h : ast.Looping a) : ∃ c, ast.links.Lists a c ∧ ast.Looping c := by
  obtain ⟨x, hax, hx⟩ := h
  rcases Links.below_iff.1 hax with ⟨c, hc, hcx⟩ | rfl
  · exact ⟨c, hc, x, hcx, hx⟩
  · obtain ⟨c, hc, hcx⟩ := Relation.TransGen.head'_iff.1 hx
    exact ⟨c, hc, x, hcx, hx⟩

/-- There the visit never ends. -/
theorem astVisit_diverges (visitor : ν → σ → σ) :
    ∀ {fuel : ℕ} {a : ν}, ast.Looping a → ∀ data, ast.astVisit visitor fuel data (some a) = none
  | 0, _, _, _ => rfl
  | fuel + 1, a, h, data => by
    obtain ⟨c, hc, hloop⟩ := h.exists_child
    rw [astVisit]
    exact foldlM_eq_none (astVisit_diverges visitor hloop) (visitor a data) (mem_links.1 hc)

/-! ## The links -/

variable [DecidableEq ν]

/-- The check of the links goes down to every node below. -/
theorem validateNodeStructure_iff (maxDepth depth : ℕ) (node : ν) :
    ast.validateNodeStructure (some node) depth maxDepth = true ↔
      (∀ n x, ast.links.Down n node x → depth + n ≤ maxDepth) ∧
        ∀ a, ast.links.Below node a → ∀ child ∈ ast.children a,
          ∃ c, child = some c ∧ ast.parent c = some a := by
  have hstep : ∀ a depth, ast.validateNodeStructure (some a) depth maxDepth = true ↔
      depth ≤ maxDepth ∧
        (∀ child ∈ ast.children a, ∃ c, child = some c ∧ ast.parent c = some a) ∧
        ∀ c, ast.links.Lists a c →
          ast.validateNodeStructure (some c) (depth + 1) maxDepth = true := by
    intro a depth
    rw [GraphAST.validateNodeStructure]
    by_cases hdeep : maxDepth < depth
    · rw [dif_pos hdeep]
      exact iff_of_false Bool.false_ne_true fun hall => not_le.2 hdeep hall.1
    rw [dif_neg hdeep, List.all_eq_true, and_iff_right (not_lt.1 hdeep)]
    constructor
    · intro hall
      refine ⟨fun child hmem => ?_, fun c hc => ?_⟩
      · cases child with
        | none => cases hall none hmem
        | some c =>
          have hc := hall (some c) hmem
          rw [Bool.and_eq_true, decide_eq_true_eq] at hc
          exact ⟨c, rfl, hc.1⟩
      · have hc := hall (some c) (mem_links.1 hc)
        rw [Bool.and_eq_true] at hc
        exact hc.2
    · rintro ⟨hlinked, hchildren⟩ child hmem
      obtain ⟨c, rfl, hparent⟩ := hlinked child hmem
      dsimp only
      rw [Bool.and_eq_true, decide_eq_true_eq]
      exact ⟨hparent, hchildren c (mem_links.2 hmem)⟩
  exact Links.checked_iff hstep _ depth node rfl

/-- The validation from the root succeeds just if the nodes below it are structured. -/
theorem validateNodeStructure_root_iff :
    ast.validateNodeStructure (some root) 0 defaultMaxDepth = true ↔ ast.Structured root := by
  rw [validateNodeStructure_iff]
  simp only [Nat.zero_add]
  constructor
  · rintro ⟨hdepth, hlinked⟩
    refine ⟨fun a ha hnone => ?_, fun a c ha hc => ?_, hdepth⟩
    · obtain ⟨c, hc, -⟩ := hlinked a ha none hnone
      cases hc
    · obtain ⟨d, hd, hparent⟩ := hlinked a ha (some c) hc
      obtain rfl := Option.some.inj hd
      exact hparent
  · rintro h
    refine ⟨h.depth, fun a ha child hchild => ?_⟩
    cases child with
    | none => exact absurd hchild (h.nonNull a ha)
    | some c => exact ⟨c, rfl, h.parent_eq a c ha hchild⟩

/-! ## Trees -/

/-- Where no node is listed twice by one node, linked nodes form a tree. -/
theorem Structured.isTree (h : ast.Structured root) (hacyclic : ast.links.AcyclicBelow root)
    (hnodup : ¬ ast.Repeats root) : ast.links.IsTree root := by
  refine ⟨fun a ha => ?_, fun a c ha hc => h.parent_eq a c ha (mem_links.1 hc), hacyclic⟩
  have hchildren : (ast.children a).Nodup := by
    by_contra hnot
    exact hnodup ⟨a, ha, hnot⟩
  refine hchildren.filterMap fun x y c hx hy => ?_
  exact (Option.mem_def.1 hx).trans (Option.mem_def.1 hy).symm

omit [DecidableEq ν] in
/-- In a well-formed tree no list names a node twice. -/
theorem WellFormed.not_repeats (h : ast.WellFormed root) : ¬ ast.Repeats root := by
  rintro ⟨a, ha, hnot⟩
  refine hnot (List.nodup_iff_getElem?_ne_getElem?.2 fun i j hij hj heq => ?_)
  have hget := List.getElem?_eq_getElem hj
  cases hchild : (ast.children a)[j] with
  | none => exact h.nonNull a ha (hchild ▸ List.getElem_mem hj)
  | some c =>
    have hmem : some c ∈ ast.children a := hchild ▸ List.getElem_mem hj
    have hbelow : ast.links.Below root c := ha.tail (mem_links.2 hmem)
    have hne : c ≠ root := by
      rintro rfl
      exact h.unlisted a ha hmem
    rw [hchild] at hget
    have hplaces : (a, i) = (a, j) :=
      (h.once c hbelow hne).unique ⟨ha, heq.trans hget⟩ ⟨ha, hget⟩
    exact hij.ne (congrArg Prod.snd hplaces)

omit [DecidableEq ν] in
/-- Linked nodes are a well-formed tree where no list names a node twice and their number is
right. -/
theorem Structured.wellFormed (h : ast.Structured root) (hacyclic : ast.links.AcyclicBelow root)
    (hnodup : ¬ ast.Repeats root) (hcount : ast.nodeCount.toNat = ast.links.size root) :
    ast.WellFormed root := by
  refine ⟨h, fun c hc hne => ?_, fun a ha hroot => ?_, hcount⟩
  · obtain ⟨b, hb, hbc⟩ : ∃ b, ast.links.Below root b ∧ some c ∈ ast.children b := by
      rcases hc.cases_tail with heq | ⟨b, hb, hbc⟩
      · exact absurd heq hne
      · exact ⟨b, hb, mem_links.1 hbc⟩
    obtain ⟨i, hi⟩ := List.mem_iff_getElem?.1 hbc
    refine ⟨(b, i), ⟨hb, hi⟩, ?_⟩
    rintro ⟨a, j⟩ ⟨ha, hj⟩
    obtain rfl : a = b := Option.some.inj ((h.parent_eq a c ha (List.mem_of_getElem? hj)).symm.trans
      (h.parent_eq b c hb hbc))
    have hchildren : (ast.children a).Nodup := by
      by_contra hnot
      exact hnodup ⟨a, hb, hnot⟩
    have hlt := (List.getElem?_eq_some_iff.1 hj).1
    obtain rfl : j = i := (List.getElem?_inj hlt hchildren).1 (hj.trans hi.symm)
    rfl
  · exact hacyclic root .refl (Relation.TransGen.tail' ha (mem_links.2 hroot))

/-! ## The validation -/

/-- Where the children do not lead around in a circle, the validation returns. -/
theorem astValidate_settles [Finite ν] (hroot : ast.root = some root)
    (hacyclic : ast.links.AcyclicBelow root) :
    Settles ast.astValidate
      (ast.links.ways (Nat.card ν) root % 2 ^ 32 = ast.nodeCount.toNat &&
        ast.validateNodeStructure (some root) 0 defaultMaxDepth) := by
  have hvisit := (astVisit_settles hacyclic .refl Links.size_le_card 0).map fun countedNodes =>
    if countedNodes ≠ ast.nodeCount then false
    else ast.validateNodeStructure (some root) 0 defaultMaxDepth
  have hcounted : (0 + UInt32.ofNat (ast.links.ways (Nat.card ν) root) = ast.nodeCount) ↔
      ast.links.ways (Nat.card ν) root % 2 ^ 32 = ast.nodeCount.toNat := by
    rw [UInt32.zero_add, ← UInt32.toNat_inj, UInt32.toNat_ofNat']
  have hvalue : (ast.links.ways (Nat.card ν) root % 2 ^ 32 = ast.nodeCount.toNat &&
        ast.validateNodeStructure (some root) 0 defaultMaxDepth) =
      if 0 + UInt32.ofNat (ast.links.ways (Nat.card ν) root) ≠ ast.nodeCount then false
      else ast.validateNodeStructure (some root) 0 defaultMaxDepth := by
    by_cases hne : ast.links.ways (Nat.card ν) root % 2 ^ 32 = ast.nodeCount.toNat
    · rw [decide_eq_true hne, Bool.true_and, if_neg (not_not.2 (hcounted.2 hne))]
    · rw [decide_eq_false hne, Bool.false_and, if_pos fun h => hne (hcounted.1 h)]
  rw [hvalue]
  have hfun : ast.astValidate = fun fuel =>
      (ast.astVisit countNode fuel 0 (some root)).map fun countedNodes =>
        if countedNodes ≠ ast.nodeCount then false
        else ast.validateNodeStructure (some root) 0 defaultMaxDepth := by
    funext fuel
    rw [astValidate, hroot]
  rw [hfun]
  exact hvisit

/-- What it answers is right or not. -/
theorem validates_iff_of_acyclic [Finite ν] (hroot : ast.root = some root)
    (hacyclic : ast.links.AcyclicBelow root) :
    ast.Validates ↔
      (ast.links.ways (Nat.card ν) root % 2 ^ 32 = ast.nodeCount.toNat ∧ ast.Structured root ↔
        ast.WellFormed root) := by
  have hsettles := astValidate_settles hroot hacyclic
  have hwellFormed : (∃ r, ast.root = some r ∧ ast.WellFormed r) ↔ ast.WellFormed root := by
    rw [hroot]
    exact ⟨fun ⟨r, hr, h⟩ => Option.some.inj hr ▸ h, fun h => ⟨root, rfl, h⟩⟩
  unfold Validates
  rw [hwellFormed, ← validateNodeStructure_root_iff, ← Bool.decide_iff (_ = _), ← Bool.and_eq_true]
  exact ⟨fun ⟨answer, h, hiff⟩ => h.unique hsettles ▸ hiff, fun h => ⟨_, hsettles, h⟩⟩

/-- It is wrong where a node that is listed twice is all that is wrong, and the number of ways is
`node_count`. -/
theorem accepts_iff [Finite ν] (hcard : Nat.card ν < 2 ^ 32)
    (hacyclic : ast.links.AcyclicBelow root) :
    (ast.links.ways (Nat.card ν) root % 2 ^ 32 = ast.nodeCount.toNat ∧ ast.Structured root ↔
      ast.WellFormed root) ↔
      ¬ (ast.Structured root ∧ ast.Repeats root ∧
        ast.links.ways (Nat.card ν) root % 2 ^ 32 = ast.nodeCount.toNat) := by
  by_cases hstructured : ast.Structured root
  · rw [and_iff_left hstructured, and_iff_right hstructured]
    by_cases hrepeats : ast.Repeats root
    · have hnot : ¬ ast.WellFormed root := fun h => h.not_repeats hrepeats
      rw [and_iff_right hrepeats, iff_false_right hnot]
    · -- In a tree there are as many ways as nodes, and the count does not wrap around.
      have htree := hstructured.isTree hacyclic hrepeats
      have hways := htree.ways_eq .refl Links.size_le_card
      have hlt : ast.links.size root < 2 ^ 32 := Links.size_le_card.trans_lt hcard
      rw [hways, Nat.mod_eq_of_lt hlt]
      refine iff_of_true ⟨fun h => ?_, fun h => h.count.symm⟩ fun h => hrepeats h.1
      exact hstructured.wellFormed hacyclic hrepeats h.symm
  · refine iff_of_true ?_ fun h => hstructured h.1
    exact iff_of_false (fun h => hstructured h.2) fun h => hstructured h.toStructured

/-- Where the children lead around in a circle, the validation does not return. -/
theorem not_validates_of_looping (hroot : ast.root = some root) (hloop : ast.Looping root) :
    ¬ ast.Validates := by
  rintro ⟨answer, hsettles, -⟩
  refine hsettles.not_diverges fun fuel => ?_
  rw [astValidate, hroot]
  dsimp only
  rw [astVisit_diverges countNode hloop, Option.map_none]

/-- Without a root it fails. -/
theorem validates_of_root_eq_none (hroot : ast.root = none) : ast.Validates := by
  have hsettles : Settles ast.astValidate false := by
    refine settles_of_forall fun fuel => ?_
    rw [astValidate, hroot]
  refine ⟨false, hsettles, iff_of_false Bool.false_ne_true ?_⟩
  rintro ⟨root, h, -⟩
  cases hroot.symm.trans h

/-- A root `false` with these children, and a node `true` below it. -/
def rootAndNode (children : List (Option Bool)) (nodeCount : UInt32) : GraphAST Bool where
  root := some false
  nodeCount := nodeCount
  children node := if node then [] else children
  parent node := if node then some false else none

/-- The validation returns and accepts exactly the well-formed trees, where there is no root, or the
children below it do not lead around in a circle and there is no node that is listed twice by one
node while everything else is as it should be and the number of ways down is `node_count`. -/
theorem validates_iff [Finite ν] (ast : GraphAST ν) (hcard : Nat.card ν < 2 ^ 32) :
    ast.Validates ↔ ∀ root, ast.root = some root → ast.links.AcyclicBelow root ∧
      ¬ (ast.Structured root ∧ ast.Repeats root ∧
        ast.links.ways (Nat.card ν) root % 2 ^ 32 = ast.nodeCount.toNat) := by
  cases hroot : ast.root with
  | none => exact iff_of_true (validates_of_root_eq_none hroot) fun root h => by cases h
  | some root =>
    simp only [Option.some.injEq, forall_eq']
    by_cases hacyclic : ast.links.AcyclicBelow root
    · rw [and_iff_right hacyclic, validates_iff_of_acyclic hroot hacyclic,
        accepts_iff hcard hacyclic]
    · have hloop : ast.Looping root := by
        by_contra hnone
        exact hacyclic fun a ha habove => hnone ⟨a, ha, habove⟩
      exact iff_of_false (not_validates_of_looping hroot hloop) fun h => hacyclic h.1

/-- A root that lists one node. -/
theorem validates_iff_rootAndNode : (rootAndNode [some true] 2).Validates := by
  refine (validates_iff _ (by rw [Nat.card_eq_fintype_card]; decide)).2 fun root _ => ⟨?_, ?_⟩
  · -- The edge leads from the root to the other node.
    have hedge : ∀ {a c : Bool}, (rootAndNode [some true] 2).links.Lists a c →
        a = false ∧ c = true := by
      intro a c hac
      have hmem := mem_links.1 hac
      cases a with
      | true => cases hmem
      | false => exact ⟨rfl, Option.some.inj (List.mem_singleton.1 hmem)⟩
    intro a _ habove
    obtain ⟨b, hab, -⟩ := Relation.TransGen.head'_iff.1 habove
    obtain ⟨c, -, hca⟩ := Relation.TransGen.tail'_iff.1 habove
    cases (hedge hab).1.symm.trans (hedge hca).2
  · rintro ⟨-, ⟨a, -, hnot⟩, -⟩
    refine hnot ?_
    cases a <;> decide

/-- A node that is listed twice is counted twice, and a node that lists itself is counted for
ever. -/
theorem listed_twice_or_by_itself : ¬ (rootAndNode [some true, some true] 3).Validates ∧
    ¬ GraphAST.Validates ⟨some (), 1, fun _ => [some ()], fun _ => some ()⟩ := by
  constructor
  · rintro ⟨answer, hsettles, hiff⟩
    have hleaf : (rootAndNode [some true, some true] 3).validateNodeStructure (some true) 1
        defaultMaxDepth = true := by
      rw [GraphAST.validateNodeStructure, dif_neg (by decide)]
      rfl
    have hlinks : (rootAndNode [some true, some true] 3).validateNodeStructure (some false) 0
        defaultMaxDepth = true := by
      rw [GraphAST.validateNodeStructure, dif_neg (by decide)]
      refine List.all_eq_true.2 fun child hchild => ?_
      have hmem : child ∈ List.replicate 2 (some true) := hchild
      obtain rfl := List.eq_of_mem_replicate hmem
      exact Bool.and_eq_true_iff.2 ⟨rfl, hleaf⟩
    have hanswer : (rootAndNode [some true, some true] 3).astValidate 3 = some true := by
      have hcounted : (rootAndNode [some true, some true] 3).astValidate 3 =
          some ((rootAndNode [some true, some true] 3).validateNodeStructure (some false) 0
            defaultMaxDepth) := rfl
      rw [hcounted, hlinks]
    obtain ⟨root, hroot, h⟩ := hiff.1 (hsettles.eq_of_some hanswer).symm
    obtain rfl := Option.some.inj hroot
    exact h.not_repeats ⟨false, .refl, by decide⟩
  · exact not_validates_of_looping rfl ⟨(), .refl, .single (mem_links.2 List.mem_cons_self)⟩

end GraphAST

end LibPolyCall.Parser
