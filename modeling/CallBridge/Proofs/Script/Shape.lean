import CallBridge.Proofs.Script.Subtree

/-!
# Shapes of trees

Whether a tree is one of a script is not told by its type: a node may have any children. What the
grammar gives has as many as its layout prints, lines where lines are printed, and nothing below
names and literals. That is its shape (`WellShaped`), node by node.
-/

namespace CallBridge.Script

namespace Kind

/-- Whether a node of a kind has no children. -/
def isLeaf : Kind → Bool
  | .absent | .reference _ | .target _ | .binding _ | .key _ | .privateKey _ | .string _
  | .number _ | .bigint _ | .boolean _ | .null | .this | .super | .metaProperty .. | .hole
  | .typeLiteral _ | .directive _ | .empty | .debugger | .breaking _ | .continuing _
  | .importDefault _ | .importNamespace _ | .importNamed .. | .exportNamed ..
  | .exportAll .. => true
  | _ => false

/-- Whether a node of a kind is printed as lines of its own. -/
def isLine : Kind → Bool
  | .function form => form.isDeclaration
  | .classLike isDeclaration => isDeclaration
  | .method .. | .field .. | .staticBlock | .expressionStatement | .directive _ | .block | .empty
  | .debugger | .variableList _ | .ifElse | .forLoop | .forIn | .forOf _ | .whileLoop | .doWhile
  | .withScope | .returning | .throwing | .breaking _ | .continuing _ | .labeled _ | .switch
  | .case | .tryCatch | .importDeclaration .. | .exportList _ | .exportAll .. | .exportDeclaration
  | .exportDefault => true
  | _ => false

/-- Whether a node is what a tag stands in front of. -/
def isTemplate : Kind → Bool
  | .template _ => true
  | _ => false

def isFunction : Kind → Bool
  | .function _ => true
  | _ => false

/-- Whether a node of a kind stands in the list of an import or an export. -/
def isSpecifier : Kind → Bool
  | .importDefault _ | .importNamespace _ | .importNamed .. | .exportNamed .. => true
  | _ => false

/-- Whether a property of a form has the value of a method. -/
def isMethodForm : PropertyForm → Bool
  | .init | .shorthand => false
  | .method | .getter | .setter => true

/-- Whether a node of a kind has a number of children. -/
def counts (k : Kind) (n : Nat) : Bool :=
  match k with
  | .spread | .rest | .targetRest | .member .. | .privateMember .. | .chain | .paren | .unary _
  | .update .. | .await | .typeArray | .expressionStatement | .returning | .throwing | .labeled _
  | .exportDeclaration | .exportDefault => n == 1
  | .tagged | .property .. | .shorthandDefault | .arrow _ | .method .. | .field .. | .index _
  | .binary _ | .assign _ | .asType | .patternProperty .. | .withDefault | .targetProperty ..
  | .targetDefault | .typed _ | .declarator | .whileLoop | .doWhile | .withScope
  | .handler => n == 2
  | .conditional | .ifElse | .forIn | .forOf _ | .tryCatch => n == 3
  | .function _ | .forLoop => n == 4
  | .yield _ => n ≤ 1
  | .call _ | .chainCall _ | .new | .switch | .case => 1 ≤ n
  | .classLike _ => 2 ≤ n
  | .template quasis => n + 1 == quasis.length
  | k => !k.isLeaf || n == 0

/-- Whether the children of a node of a kind are of the kinds that are printed there. -/
def places (k : Kind) (ks : List Kind) : Bool :=
  match k, ks with
  | .tagged, [_, quasi] => quasi.isTemplate
  | .property form _, [first, value] =>
    (form != .shorthand || first.isLeaf) && (!isMethodForm form || value.isFunction)
  | .method .., [_, value] => value.isFunction
  | .function _, name :: _ => name.isLeaf
  | .targetProperty shorthand _, first :: _ => !shorthand || first.isLeaf
  | .body, items | .block, items | .staticBlock, items | .program _, items => items.all isLine
  | .classLike _, _ :: _ :: members => members.all isLine
  | .ifElse, [_, yes, no] => yes.isLine && (no == .absent || no.isLine)
  | .forLoop, [_, _, _, inside] | .forIn, [_, _, inside] | .forOf _, [_, _, inside] => inside.isLine
  | .whileLoop, [_, inside] | .withScope, [_, inside] => inside.isLine
  | .labeled _, [inside] | .exportDeclaration, [inside] => inside.isLine
  | .switch, _ :: cases => cases.all isLine
  | .case, _ :: items => items.all isLine
  | .tryCatch, inside :: _ => inside == .block
  | .importDeclaration .., items | .exportList _, items => items.all isSpecifier
  | _, _ => true

/-- Shorthands stand under a leaf, and methods have functions for their values. -/
theorem places_property {form : PropertyForm} {computed : Bool} {first value : Kind} :
    places (.property form computed) [first, value] =
      ((form != .shorthand || first.isLeaf) && (!isMethodForm form || value.isFunction)) := rfl

/-- What stands in a list of imports or exports keeps its names in its node. -/
theorem isLeaf_of_isSpecifier {k : Kind} (h : k.isSpecifier) : k.isLeaf := by
  cases k <;> first | rfl | cases h

end Kind

/-- Every node of a tree has children as the grammar gives them. -/
def WellShaped : Tree → Prop :=
  Tree.fold fun k _ cs =>
    k.counts cs.length ∧ k.places (cs.map (·.1.kind)) ∧ ∀ c ∈ cs, c.2

variable {k : Kind} {s : Span} {t : Tree} {ts : List Tree}

/-- A tree is well shaped if its root has the children it should and they are well shaped. -/
theorem wellShaped_node :
    WellShaped (.node k s ts) ↔
      k.counts ts.length ∧ k.places (ts.map Tree.kind) ∧ ∀ t ∈ ts, WellShaped t := by
  simp only [WellShaped, Tree.fold_node, List.length_map, List.map_map, Function.comp_def,
    List.forall_mem_map]

theorem WellShaped.node (hcount : k.counts ts.length) (hplace : k.places (ts.map Tree.kind))
    (h : ∀ t ∈ ts, WellShaped t) : WellShaped (.node k s ts) :=
  wellShaped_node.2 ⟨hcount, hplace, h⟩

/-- A leaf is well shaped without children. -/
theorem WellShaped.leaf (hk : k.isLeaf) : WellShaped (.node k s []) := by
  refine .node ?_ ?_ nofun <;> cases k <;> first | rfl | exact absurd hk Bool.false_ne_true

/-- A well-shaped leaf has no children. -/
theorem WellShaped.eq_nil_of_isLeaf (h : WellShaped (.node k s ts)) (hk : k.isLeaf) : ts = [] := by
  have hcount := (wellShaped_node.1 h).1
  refine List.eq_nil_of_length_eq_zero ?_
  cases k <;> first | exact beq_iff_eq.1 hcount | cases hk

/-- Every tree inside a well-shaped one is well shaped. -/
theorem WellShaped.of_mem_subtrees {u : Tree} (h : WellShaped t) (hu : u ∈ t.subtrees) :
    WellShaped u := by
  induction t with
  | node k s ts ih =>
    rw [Tree.subtrees_node] at hu
    rcases List.mem_cons.1 hu with rfl | hu
    · exact h
    · obtain ⟨t, ht, hu⟩ := List.mem_flatMap.1 hu
      exact ih t ht ((wellShaped_node.1 h).2.2 t ht) hu

/-! ### Numbers of children -/

/-- The children of a node, named by how many there are. -/
theorem exists_one (h : ts.length == 1) : ∃ a, ts = [a] :=
  List.length_eq_one_iff.1 (beq_iff_eq.1 h)

theorem exists_two (h : ts.length == 2) : ∃ a b, ts = [a, b] :=
  List.length_eq_two.1 (beq_iff_eq.1 h)

theorem exists_three (h : ts.length == 3) : ∃ a b c, ts = [a, b, c] :=
  List.length_eq_three.1 (beq_iff_eq.1 h)

theorem exists_four (h : ts.length == 4) : ∃ a b c d, ts = [a, b, c, d] := by
  obtain _ | ⟨a, ts⟩ := ts
  · cases h
  · obtain ⟨b, c, d, rfl⟩ := List.length_eq_three.1 (Nat.succ.inj (beq_iff_eq.1 h))
    exact ⟨a, b, c, d, rfl⟩

theorem exists_cons (h : decide (1 ≤ ts.length)) : ∃ a us, ts = a :: us :=
  List.exists_cons_of_length_pos (of_decide_eq_true h)

theorem exists_cons_cons (h : decide (2 ≤ ts.length)) : ∃ a b us, ts = a :: b :: us := by
  obtain _ | ⟨a, _ | ⟨b, us⟩⟩ := ts
  · cases h
  · cases h
  · exact ⟨a, b, us, rfl⟩

/-- What has at least one child may have any number behind it. -/
theorem counts_cons {k : Kind} (hk : ∀ n, k.counts n = decide (1 ≤ n)) (t : Tree)
    (ts : List Tree) : k.counts (t :: ts).length := by
  rw [hk]
  exact decide_eq_true (Nat.le_add_left 1 _)

/-- A child somewhere among few, named by its place. -/
theorem exists_mem_one {p : Tree → Prop} {a : Tree} : (∃ t ∈ [a], p t) ↔ p a := by simp

theorem exists_mem_two {p : Tree → Prop} {a b : Tree} : (∃ t ∈ [a, b], p t) ↔ p a ∨ p b := by simp

theorem exists_mem_three {p : Tree → Prop} {a b c : Tree} :
    (∃ t ∈ [a, b, c], p t) ↔ p a ∨ p b ∨ p c := by simp

theorem exists_mem_four {p : Tree → Prop} {a b c d : Tree} :
    (∃ t ∈ [a, b, c, d], p t) ↔ p a ∨ p b ∨ p c ∨ p d := by simp

/-- Children that are printed as lines, one by one. -/
theorem forall_isLine (h : (ts.map Tree.kind).all Kind.isLine) : ∀ t ∈ ts, t.kind.isLine := by
  simpa using h

end CallBridge.Script
