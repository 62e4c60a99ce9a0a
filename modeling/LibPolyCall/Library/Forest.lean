import Mathlib.Logic.Function.Basic
import Mathlib.Logic.Relation
import Mathlib.Order.WellFounded
import Mathlib.Data.Fintype.Order
import Mathlib.Data.Set.Card
import Mathlib.Tactic.Common

/-!
# Forests of linked nodes

Nodes that list their children and point to their parents. Nothing ties the two together, so a node
may be listed twice, or by a node that it does not point to, or by a node below it; `IsForest` says
that none of this is so. `attach` is the operation that appends a node to the list of another one,
and sets its pointer. It keeps a forest exactly when the node is listed nowhere and the other one is
not below it (`isForest_attach_iff`). In a forest of finitely many nodes, one can recurse over the
children (`IsForest.wellFounded`). `IsTree` asks this of the nodes below one node only, which then
has as many ways down as nodes below it (`IsTree.ways_eq`).
-/

namespace Forest

open Relation

variable {ν : Type*}

/-- The two encodings of the edges between nodes. -/
structure Links (ν : Type*) where
  children : ν → List ν
  parent : ν → Option ν

namespace Links

variable (L : Links ν)

/-- The first node lists the second one as a child. -/
def Lists (a c : ν) : Prop := c ∈ L.children a

/-- The first node is a proper ancestor of the second one. -/
def Above : ν → ν → Prop := TransGen L.Lists

/-- The second node lies in the tree of the first one. -/
def Below : ν → ν → Prop := ReflTransGen L.Lists

/-- The second node lies as many levels below the first one. -/
def Down : ℕ → ν → ν → Prop
  | 0, a, x => a = x
  | n + 1, a, x => ∃ c, L.Lists a c ∧ Down n c x

/-- Every node is listed at most once, over all lists, by the node that it points to, and no node is
an ancestor of itself. -/
structure IsForest : Prop where
  nodup : ∀ a, (L.children a).Nodup
  unique : ∀ a b c, L.Lists a c → L.Lists b c → a = b
  parent_eq : ∀ a c, L.Lists a c → L.parent c = some a
  acyclic : ∀ a, ¬ L.Above a a

/-- `c` appended to the children of `p`, with `p` as its parent. -/
def attach [DecidableEq ν] (p c : ν) : Links ν where
  children := Function.update L.children p (L.children p ++ [c])
  parent := Function.update L.parent c (some p)

variable {L}

/-- Appending adds one edge. -/
theorem lists_attach [DecidableEq ν] {p c a x : ν} :
    (L.attach p c).Lists a x ↔ L.Lists a x ∨ a = p ∧ x = c := by
  unfold Lists attach
  rcases eq_or_ne a p with rfl | hne
  · simp [Function.update_self]
  · simp [hne]

/-- A path along the edges with one more edge runs along the old ones, or leads to the new edge and
on from it. -/
theorem transGen_or_edge {r : ν → ν → Prop} {p c a b : ν}
    (h : TransGen (fun x y => r x y ∨ x = p ∧ y = c) a b) :
    TransGen r a b ∨ ReflTransGen r a p ∧ ReflTransGen r c b := by
  induction h with
  | single hedge =>
    rcases hedge with hold | ⟨rfl, rfl⟩
    · exact .inl (.single hold)
    · exact .inr ⟨.refl, .refl⟩
  | tail _ hedge ih =>
    rcases ih with hpath | ⟨hto, hfrom⟩ <;> rcases hedge with hold | ⟨rfl, rfl⟩
    · exact .inl (hpath.tail hold)
    · exact .inr ⟨hpath.to_reflTransGen, .refl⟩
    · exact .inr ⟨hto, hfrom.tail hold⟩
    · exact .inr ⟨hto, .refl⟩

/-- The condition of `attach`: the node is listed nowhere, and it is neither the other node nor an
ancestor of it. -/
structure Attachable (L : Links ν) (p c : ν) : Prop where
  unlisted : ∀ a, ¬ L.Lists a c
  ne : p ≠ c
  not_above : ¬ L.Above c p

/-- Appending a node keeps a forest exactly when the node is the root of a tree that the other one
does not lie in. -/
theorem isForest_attach_iff [DecidableEq ν] (h : L.IsForest) {p c : ν} :
    (L.attach p c).IsForest ↔ L.Attachable p c := by
  have hnew : (L.attach p c).Lists p c := lists_attach.2 (.inr ⟨rfl, rfl⟩)
  have hold : ∀ {a x}, L.Lists a x → (L.attach p c).Lists a x := fun hax =>
    lists_attach.2 (.inl hax)
  constructor
  · intro h'
    refine ⟨fun a ha => ?_, ?_, fun hcp => ?_⟩
    · -- The node would be listed twice, by `p` and by `a`.
      obtain rfl : a = p := h'.unique a p c (hold ha) hnew
      have hnodup := h'.nodup a
      simp only [attach, Function.update_self] at hnodup
      exact (List.nodup_append.1 hnodup).2.2 c ha c (List.mem_singleton_self c) rfl
    · rintro rfl
      exact h'.acyclic p (.single hnew)
    · -- A way from `c` to `p` would be closed by the new edge.
      have hcp' : (L.attach p c).Above c p := TransGen.mono (fun _ _ hax => hold hax) c p hcp
      exact h'.acyclic c (hcp'.tail hnew)
  · rintro ⟨hunlisted, hne, hnot⟩
    have hnotMem : c ∉ L.children p := hunlisted p
    refine ⟨fun a => ?_, fun a b x ha hb => ?_, fun a x hax => ?_, fun a hcycle => ?_⟩
    · -- Only the list of `p` is longer, by a node that it did not have.
      rcases eq_or_ne a p with rfl | hap
      · simp only [attach, Function.update_self]
        exact List.Nodup.append (h.nodup a) (List.nodup_singleton c)
          (List.disjoint_singleton.2 hnotMem)
      · simp only [attach, Function.update_of_ne hap]
        exact h.nodup a
    · -- Two nodes that list one: each of the two edges is an old one or the new one.
      rcases lists_attach.1 ha with ha | ⟨rfl, rfl⟩ <;>
        rcases lists_attach.1 hb with hb | ⟨hbp, hbc⟩
      · exact h.unique a b x ha hb
      · exact absurd (hbc ▸ ha) (hunlisted a)
      · exact absurd hb (hunlisted b)
      · exact hbp.symm
    · rcases lists_attach.1 hax with hlisted | ⟨rfl, rfl⟩
      · have hxc : x ≠ c := by
          rintro rfl
          exact hunlisted a hlisted
        simp only [attach, Function.update_of_ne hxc]
        exact h.parent_eq a x hlisted
      · simp only [attach, Function.update_self]
    · -- A cycle runs through the new edge, and leads from `c` back to `p`.
      have hcycle' : TransGen (fun x y => L.Lists x y ∨ x = p ∧ y = c) a a :=
        TransGen.mono (fun _ _ hxy => lists_attach.1 hxy) a a hcycle
      rcases transGen_or_edge hcycle' with hpath | ⟨hto, hfrom⟩
      · exact h.acyclic a hpath
      · rcases reflTransGen_iff_eq_or_transGen.1 (hfrom.trans hto) with heq | habove
        · exact hne heq
        · exact hnot habove

/-! ## Walks down a forest -/

/-- In a forest with finitely many nodes that have children, one can recurse over the children. -/
theorem IsForest.wellFounded (h : L.IsForest) (hfinite : {a | L.children a ≠ []}.Finite) :
    WellFounded fun c a => L.Lists a c := by
  have : Finite {a | L.children a ≠ []} := hfinite
  have : IsTrans {a | L.children a ≠ []} fun b a => L.Above a b :=
    ⟨fun _ _ _ hba hcb => hcb.trans hba⟩
  have : Std.Irrefl fun b a : {a | L.children a ≠ []} => L.Above a b :=
    ⟨fun a ha => h.acyclic a ha⟩
  have hwf : WellFounded fun b a : {a | L.children a ≠ []} => L.Above a b :=
    Finite.wellFounded_of_trans_of_irrefl _
  have hleaf : ∀ a, L.children a = [] → Acc (fun c a => L.Lists a c) a := by
    refine fun a ha => ⟨a, fun c hc => ?_⟩
    rw [Lists, ha] at hc
    exact absurd hc List.not_mem_nil
  have hinner : ∀ a : {a | L.children a ≠ []}, Acc (fun c a => L.Lists a c) a.1 := by
    intro a
    induction a using hwf.induction with
    | _ a ih =>
      refine ⟨a.1, fun c hc => ?_⟩
      by_cases hempty : L.children c = []
      · exact hleaf c hempty
      · exact ih ⟨c, hempty⟩ (.single hc)
  refine ⟨fun a => ?_⟩
  by_cases hempty : L.children a = []
  · exact hleaf a hempty
  · exact hinner ⟨a, hempty⟩

/-- A node does not lie in the tree of one of its children. -/
theorem IsForest.not_below (h : L.IsForest) {a c : ν} (hc : L.Lists a c) : ¬ L.Below c a :=
  fun hca => h.acyclic a (TransGen.head' hc hca)

/-- The tree of a node is the node with the trees of its children. -/
theorem below_iff {a x : ν} : L.Below a x ↔ (∃ c, L.Lists a c ∧ L.Below c x) ∨ x = a := by
  constructor
  · intro h
    rcases ReflTransGen.cases_head h with heq | ⟨c, hc, hcx⟩
    · exact .inr heq.symm
    · exact .inl ⟨c, hc, hcx⟩
  · rintro (⟨c, hc, hcx⟩ | rfl)
    · exact .head hc hcx
    · exact .refl

/-- A check that goes down from a node to a depth finds out whether no node is deeper and all that
it comes to are good. -/
theorem checked_iff {check : ν → ℕ → Prop} {good : ν → Prop} {maxDepth : ℕ}
    (hstep : ∀ a depth, check a depth ↔
      depth ≤ maxDepth ∧ good a ∧ ∀ c, L.Lists a c → check c (depth + 1)) :
    ∀ (k depth : ℕ) (a : ν), maxDepth + 1 - depth = k →
      (check a depth ↔
        (∀ n x, L.Down n a x → depth + n ≤ maxDepth) ∧ ∀ b, L.Below a b → good b)
  | 0, depth, a, hk => by
    have hdeep : ¬ depth ≤ maxDepth := by omega
    rw [hstep]
    exact iff_of_false (fun h => hdeep h.1) fun h => hdeep (h.1 0 a rfl)
  | k + 1, depth, a, hk => by
    have hchild : ∀ c, check c (depth + 1) ↔
        (∀ n x, L.Down n c x → depth + 1 + n ≤ maxDepth) ∧ ∀ b, L.Below c b → good b := fun c =>
      checked_iff hstep k (depth + 1) c (by omega)
    rw [hstep]
    constructor
    · rintro ⟨hdepth, hgood, hchildren⟩
      refine ⟨fun n x hdown => ?_, fun b hb => ?_⟩
      · cases n with
        | zero => exact hdepth
        | succ n =>
          obtain ⟨c, hc, hcx⟩ := hdown
          have hle := ((hchild c).1 (hchildren c hc)).1 n x hcx
          omega
      · rcases below_iff.1 hb with ⟨c, hc, hcb⟩ | rfl
        · exact ((hchild c).1 (hchildren c hc)).2 b hcb
        · exact hgood
    · rintro ⟨hdown, hgood⟩
      refine ⟨hdown 0 a rfl, hgood a .refl, fun c hc => (hchild c).2 ⟨fun n x hcx => ?_, ?_⟩⟩
      · have hle := hdown (n + 1) x ⟨c, hc, hcx⟩
        omega
      · exact fun b hb => hgood b (.head hc hb)

/-- The trees of two children have no node in common. -/
theorem IsForest.disjoint (h : L.IsForest) {a c d x : ν} (hc : L.Lists a c) (hd : L.Lists a d)
    (hcx : L.Below c x) (hdx : L.Below d x) : c = d := by
  -- The ancestors of a node form a chain, since a node is listed only once.
  have hchain : ∀ {c d : ν}, L.Lists a d → L.Below c d → ¬ c = d → L.Below c a := by
    intro c d hd hcd hne
    rcases ReflTransGen.cases_tail hcd with heq | ⟨b, hcb, hbd⟩
    · exact absurd heq.symm hne
    · rwa [h.unique a b d hd hbd]
  have hunique : Relator.RightUnique (Function.swap L.Lists) := fun x a b ha hb =>
    h.unique a b x ha hb
  by_contra hne
  rcases ReflTransGen.total_of_right_unique hunique (reflTransGen_swap.2 hcx)
    (reflTransGen_swap.2 hdx) with hdc | hcd
  · exact h.not_below hd (hchain hc (reflTransGen_swap.1 hdc) (Ne.symm hne))
  · exact h.not_below hc (hchain hd (reflTransGen_swap.1 hcd) hne)

/-! ## The nodes below a node -/

/-- The number of nodes in the tree of a node. -/
noncomputable def size (L : Links ν) (a : ν) : ℕ := {x | L.Below a x}.ncard

/-- The number of ways of fewer than `n` edges that lead down from a node. -/
def ways (L : Links ν) : ℕ → ν → ℕ
  | 0, _ => 0
  | n + 1, a => ((L.children a).map (ways L n)).sum + 1

/-- No node in the tree of `r` is an ancestor of itself. -/
def AcyclicBelow (L : Links ν) (r : ν) : Prop := ∀ a, L.Below r a → ¬ L.Above a a

/-- The nodes in the tree of `r` form a tree: none is listed twice by one node, each points to the
node that lists it, and none is an ancestor of itself. -/
structure IsTree (L : Links ν) (r : ν) : Prop where
  nodup : ∀ a, L.Below r a → (L.children a).Nodup
  parent_eq : ∀ a c, L.Below r a → L.Lists a c → L.parent c = some a
  acyclic : L.AcyclicBelow r

open Classical in
/-- The links of the nodes in the tree of `r` alone. -/
noncomputable def restrict (L : Links ν) (r : ν) : Links ν where
  children a := if L.Below r a then L.children a else []
  parent := L.parent

variable {r a c x : ν}

/-- Below `r` the restricted links are the links. -/
theorem lists_restrict : (L.restrict r).Lists a c ↔ L.Below r a ∧ L.Lists a c := by
  unfold Lists restrict
  dsimp only
  by_cases ha : L.Below r a
  · rw [if_pos ha, and_iff_right ha]
  · rw [if_neg ha]
    exact iff_of_false List.not_mem_nil fun h => ha h.1

/-- Below `r` the same nodes are below a node. -/
theorem below_restrict (ha : L.Below r a) : (L.restrict r).Below a x ↔ L.Below a x := by
  constructor
  · exact ReflTransGen.mono (fun _ _ h => (lists_restrict.1 h).2) a x
  · intro h
    induction h with
    | refl => exact .refl
    | tail hpath hedge ih => exact ih.tail (lists_restrict.2 ⟨ha.trans hpath, hedge⟩)

/-- Seen from its root alone, a tree is a forest. -/
theorem IsTree.isForest (h : L.IsTree r) : (L.restrict r).IsForest := by
  have hparent : ∀ {a c}, (L.restrict r).Lists a c → L.parent c = some a := fun hac =>
    h.parent_eq _ _ (lists_restrict.1 hac).1 (lists_restrict.1 hac).2
  refine ⟨fun a => ?_, fun a b c hac hbc => ?_, fun a c hac => hparent hac, fun a ha => ?_⟩
  · unfold restrict
    dsimp only
    split_ifs with hra
    · exact h.nodup a hra
    · exact List.nodup_nil
  · exact Option.some.inj ((hparent hac).symm.trans (hparent hbc))
  · obtain ⟨c, hac, -⟩ := TransGen.head'_iff.1 ha
    have habove : L.Above a a := TransGen.mono (fun _ _ hxy => (lists_restrict.1 hxy).2) a a ha
    exact h.acyclic a (lists_restrict.1 hac).1 habove

section Finite

variable [Finite ν]

/-- A node is below itself, so no size is zero. -/
theorem size_pos : 0 < L.size a := (Set.ncard_pos (Set.toFinite _)).2 ⟨a, .refl⟩

/-- No size is above the number of all nodes. -/
theorem size_le_card : L.size a ≤ Nat.card ν := by
  rw [← Set.ncard_univ]
  exact Set.ncard_le_ncard (Set.subset_univ _)

/-- Where no node is an ancestor of itself, the trees of the children are smaller. -/
theorem AcyclicBelow.size_lt (h : L.AcyclicBelow r) (ha : L.Below r a) (hc : L.Lists a c) :
    L.size c < L.size a := by
  refine Set.ncard_lt_ncard ⟨fun x hx => ReflTransGen.head hc hx, fun hsub => ?_⟩ (Set.toFinite _)
  have hca : L.Below c a := hsub ReflTransGen.refl
  exact h a ha (TransGen.head' hc hca)

/-- The trees of the children of a node are disjoint. -/
theorem IsTree.size_children (h : L.IsTree r) (ha : L.Below r a) :
    ∀ {cs : List ν}, cs.Nodup → (∀ c ∈ cs, L.Lists a c) →
      {x | ∃ c ∈ cs, L.Below c x}.ncard = (cs.map L.size).sum
  | [], _, _ => by
    have hnone : {x | ∃ c ∈ ([] : List ν), L.Below c x} = ∅ :=
      Set.eq_empty_of_forall_notMem fun x ⟨c, hc, _⟩ => List.not_mem_nil hc
    rw [hnone, Set.ncard_empty]
    rfl
  | c :: cs, hnodup, hcs => by
    rw [List.nodup_cons] at hnodup
    rw [List.forall_mem_cons] at hcs
    have hunion : {x | ∃ d ∈ c :: cs, L.Below d x} =
        {x | L.Below c x} ∪ {x | ∃ d ∈ cs, L.Below d x} := by
      ext x
      simp only [List.mem_cons, Set.mem_ofPred_eq, Set.mem_union, exists_eq_or_imp]
    have hdisjoint : Disjoint {x | L.Below c x} {x | ∃ d ∈ cs, L.Below d x} := by
      refine Set.disjoint_left.2 fun x hcx ⟨d, hd, hdx⟩ => hnodup.1 ?_
      have hlists : ∀ {b}, L.Lists a b → (L.restrict r).Lists a b := fun hb =>
        lists_restrict.2 ⟨ha, hb⟩
      have hbelow : ∀ {b}, L.Lists a b → L.Below b x → (L.restrict r).Below b x := fun hb =>
        (below_restrict (ha.tail hb)).2
      have hd' := hcs.2 d hd
      rw [h.isForest.disjoint (hlists hcs.1) (hlists hd') (hbelow hcs.1 hcx) (hbelow hd' hdx)]
      exact hd
    rw [hunion, Set.ncard_union_eq hdisjoint, h.size_children ha hnodup.2 hcs.2, List.map_cons,
      List.sum_cons]
    rfl

/-- The tree of a node is the node with the trees of its children. -/
theorem IsTree.size_eq (h : L.IsTree r) (ha : L.Below r a) :
    L.size a = ((L.children a).map L.size).sum + 1 := by
  have hinsert : {x | L.Below a x} = insert a {x | ∃ c ∈ L.children a, L.Below c x} := by
    ext x
    rw [Set.mem_ofPred_eq, below_iff, or_comm]
    rfl
  have hnot : a ∉ {x | ∃ c ∈ L.children a, L.Below c x} := by
    rintro ⟨c, hc, hca⟩
    exact h.acyclic a ha (TransGen.head' hc hca)
  rw [size, hinsert, Set.ncard_insert_of_notMem hnot,
    h.size_children ha (h.nodup a ha) fun c hc => hc]

/-- In a tree there is one way down to each node. -/
theorem IsTree.ways_eq (h : L.IsTree r) :
    ∀ {n : ℕ} {a : ν}, L.Below r a → L.size a ≤ n → L.ways n a = L.size a
  | 0, a, _, hn => absurd hn (Nat.not_le.2 size_pos)
  | n + 1, a, ha, hn => by
    rw [ways, h.size_eq ha]
    congr 2
    refine List.map_congr_left fun c hc => h.ways_eq (ha.tail hc) ?_
    exact Nat.le_of_lt_succ ((h.acyclic.size_lt ha hc).trans_le hn)

end Finite

end Links

end Forest
