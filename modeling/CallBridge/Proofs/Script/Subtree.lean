import CallBridge.Script.Tree
import Mathlib.Algebra.GroupWithZero.Nat
import Mathlib.Data.List.Basic

/-!
# Subtrees

What stands below a node. A property of all subtrees of a tree is a property of its node and of all
subtrees of its children (`forall_mem_subtrees`); what is counted over subtrees is counted at the
node and in the children (`countP_subtrees`).
-/

namespace CallBridge.Script.Tree

theorem self_mem_subtrees : ∀ t : Tree, t ∈ t.subtrees
  | node k s cs => by rw [subtrees_node]; exact List.mem_cons_self ..

theorem mem_subtrees_node {k : Kind} {s : Span} {cs : List Tree} {u : Tree} :
    u ∈ (node k s cs).subtrees ↔ u = node k s cs ∨ ∃ t ∈ cs, u ∈ t.subtrees := by
  rw [subtrees_node, List.mem_cons, List.mem_flatMap]

/-- What stands below a child stands below its node. -/
theorem mem_subtrees_of_child {k : Kind} {s : Span} {cs : List Tree} {t u : Tree} (ht : t ∈ cs)
    (hu : u ∈ t.subtrees) : u ∈ (node k s cs).subtrees :=
  mem_subtrees_node.2 (Or.inr ⟨t, ht, hu⟩)

theorem mem_subtrees_trans {t u v : Tree} (hu : u ∈ t.subtrees) (hv : v ∈ u.subtrees) :
    v ∈ t.subtrees := by
  induction t with
  | node k s cs ih =>
    rcases mem_subtrees_node.1 hu with rfl | ⟨t, ht, hut⟩
    · exact hv
    · exact mem_subtrees_of_child ht (ih t ht hut)

theorem forall_mem_subtrees {p : Tree → Prop} {k : Kind} {s : Span} {cs : List Tree} :
    (∀ u ∈ (node k s cs).subtrees, p u) ↔ p (node k s cs) ∧ ∀ t ∈ cs, ∀ u ∈ t.subtrees, p u := by
  constructor
  · intro h
    exact ⟨h _ (self_mem_subtrees _), fun t ht u hu => h u (mem_subtrees_of_child ht hu)⟩
  · rintro ⟨hroot, hbelow⟩ u hu
    rcases mem_subtrees_node.1 hu with rfl | ⟨t, ht, hut⟩
    · exact hroot
    · exact hbelow t ht u hut

/-- A count over subtrees is a count at the node and one in each child. -/
theorem countP_subtrees (p : Tree → Bool) (k : Kind) (s : Span) (cs : List Tree) :
    (node k s cs).subtrees.countP p =
      (if p (node k s cs) then 1 else 0) + (cs.map fun t => t.subtrees.countP p).sum := by
  rw [subtrees_node, List.countP_cons, List.countP_flatMap, Nat.add_comm]
  rfl

/-- The nodes of a tree without spans are its nodes without spans. -/
theorem subtrees_bare (t : Tree) : t.bare.subtrees = t.subtrees.map bare := by
  induction t with
  | node k s cs ih =>
    have hbelow : (cs.map bare).flatMap subtrees = (cs.flatMap subtrees).map bare := by
      rw [List.flatMap_map, List.map_flatMap]
      exact List.flatMap_congr ih
    rw [bare_node, subtrees_node, subtrees_node, hbelow, List.map_cons, bare_node]

/-- The nodes below a node are among those of the whole tree, in their order. -/
theorem subtrees_sublist {t u : Tree} (h : u ∈ t.subtrees) : u.subtrees.Sublist t.subtrees := by
  induction t with
  | node k s cs ih =>
    rcases mem_subtrees_node.1 h with rfl | ⟨t, ht, hut⟩
    · exact List.Sublist.refl _
    · have hchild : t.subtrees.Sublist (cs.flatMap subtrees) := by
        rw [List.flatMap_def]
        exact List.sublist_flatten_of_mem (List.mem_map_of_mem ht)
      rw [subtrees_node]
      exact ((ih t ht hut).trans hchild).cons _

/-- What stands below a child is smaller than its node. -/
theorem size_lt_of_child {k : Kind} {s : Span} {cs : List Tree} {t u : Tree} (ht : t ∈ cs)
    (hu : u ∈ t.subtrees) : u.size < (node k s cs).size := by
  have hut : u.size ≤ t.size := (subtrees_sublist hu).length_le
  have hchild : t.subtrees.Sublist (cs.flatMap subtrees) := by
    rw [List.flatMap_def]
    exact List.sublist_flatten_of_mem (List.mem_map_of_mem ht)
  have hlength : t.size ≤ (cs.flatMap subtrees).length := hchild.length_le
  have hnode : (node k s cs).size = (cs.flatMap subtrees).length + 1 :=
    congrArg List.length (subtrees_node k s cs)
  omega

/-! ### Parentheses -/

theorem unparen_paren (s : Span) (t : Tree) : (node .paren s [t]).unparen = t.unparen := rfl

/-- Any node but a pair of parentheses is what it is without parentheses. -/
theorem unparen_node {k : Kind} {s : Span} {cs : List Tree}
    (h : ∀ t, k = .paren → cs ≠ [t]) : (node k s cs).unparen = node k s cs := by
  rw [unparen]
  rintro s' t ⟨⟩
  exact h t rfl rfl

theorem unparen_mem_subtrees (t : Tree) : t.unparen ∈ t.subtrees := by
  induction t with
  | node k s cs ih =>
    by_cases h : ∃ t, k = .paren ∧ cs = [t]
    · obtain ⟨t, rfl, rfl⟩ := h
      rw [unparen_paren]
      exact mem_subtrees_of_child (List.mem_singleton_self t) (ih t (List.mem_singleton_self t))
    · rw [unparen_node fun t hk hc => h ⟨t, hk, hc⟩]
      exact self_mem_subtrees _

end CallBridge.Script.Tree
