import CallBridge.Proofs.Script.Printing.Leading

/-!
# Calls behind points

A spread, and a rest, is printed as points and then what is spread. So a call that it begins with
has a point directly in front of it, unless parentheses come in between. All other calls of a tree
are visible (`visible`). Nothing else is printed as points: the number in front of a member takes a
space, and a path begins with a name.
-/

namespace CallBridge.Script

namespace Kind

/-- Whether a node of a kind begins with points. -/
def isPoints : Kind → Bool
  | .spread | .rest | .targetRest => true
  | _ => false

/-- Whether a node of a kind that begins with a child is put in parentheses at a level. -/
def isWrapped (k : Kind) (l : Level) : Bool :=
  match k with
  | .chain | .update _ false => Level.postfixed ≤ l
  | .binary op => op.level ≤ l
  | .conditional => Level.conditional ≤ l
  | .assign _ => Level.assign ≤ l
  | .sequence => Level.comma ≤ l
  | .asType => 14 ≤ l
  | _ => false

/-- The level of the child that an expression or a pattern begins with, if it begins with one. -/
def firstLevel? (k : Kind) (first : Tree) (l : Level) : Option Level :=
  match k with
  | .call _ | .chainCall _ | .member .. | .privateMember .. | .index _ | .tagged
  | .update _ false => some Level.postfixed
  | .chain | .paren => some l
  | .binary op => some (Printer.leftLevel op first)
  | .conditional => some Level.conditional
  | .assign _ | .withDefault | .targetDefault | .typed _ => some Level.comma
  | .asType => some Level.power
  | .sequence => some Level.lowest
  | _ => none

/-- Whether a node of a kind begins with a child although it is no expression or pattern, so that it
never stands behind points. -/
def isBare : Kind → Bool
  | .parameters | .property .. | .patternProperty .. | .targetProperty .. | .method .. | .field ..
  | .expressionStatement | .declarator | .typeArray | .typeUnion | .program _ => true
  | _ => false

end Kind

/-- Whether points stand directly in front of a node, and then the level at which it is printed
behind them. -/
abbrev Front := Option Level

namespace Front

/-- What is left of points behind the parentheses that a node may have. -/
def inside (f : Front) (k : Kind) : Front := f.filter fun l => !k.isWrapped l

/-- What stands in front of the first child of a node. -/
def first (f : Front) (k : Kind) (t : Tree) : Front :=
  if k.isPoints then some Level.comma else (f.inside k).bind (k.firstLevel? t)

/-- Whether nothing is printed of a node, or nothing that could stand there. -/
def isBlocked (f : Front) (k : Kind) : Bool := k == .shorthandDefault || f.isSome && k.isBare

/-- The states of printing at that place. -/
def Starts (f : Front) : Printer.Out → Prop :=
  match f with
  | none => Printer.Out.Open
  | some _ => Printer.Out.Sound

end Front

/-- The calls of a tree that have no points directly in front of them, those in front of the tree
being given. -/
def visible : Tree → Front → List Tree :=
  Tree.fold fun k s cs f =>
    if f.isBlocked k then []
    else
      let own := if k = .call false ∧ f = none then [.node k s (cs.map Prod.fst)] else []
      own ++
        match cs with
        | [] => []
        | c :: rest => c.2 (f.first k c.1) ++ rest.flatMap fun c => c.2 none

namespace Printer

variable {S : Out → Prop} {f : Front} {k : Kind} {s : Span} {t x : Tree} {ts : List Tree}

/-- A visible call is the node itself or visible in a child. -/
theorem mem_visible :
    x ∈ visible (.node k s ts) f ↔
      f.isBlocked k = false ∧
        ((k = .call false ∧ f = none ∧ x = .node k s ts) ∨
          (∃ t ∈ ts.head?, x ∈ visible t (f.first k t)) ∨ ∃ u ∈ ts.tail, x ∈ visible u none) := by
  cases hblocked : f.isBlocked k with
  | true => simp [visible, Tree.fold_node, hblocked]
  | false =>
    cases ts with
    | nil => simp [visible, Tree.fold_node, hblocked, and_assoc]
    | cons t ts =>
      simp [visible, Tree.fold_node, hblocked, List.flatMap_map, Function.comp_def, and_assoc]

/-- Where a node begins with text of its own, it does not matter what stands in front of it. -/
theorem mem_visible_front (hcall : k ≠ .call false) (hbare : k.isBare = false)
    (hpoints : k.isPoints = false) (hlevel : ∀ t l, k.firstLevel? t l = none)
    (h : x ∈ visible (.node k s ts) none) (f : Front) : x ∈ visible (.node k s ts) f := by
  have hfirst (f : Front) (t : Tree) : f.first k t = none := by
    simp [Front.first, hpoints, hlevel]
  obtain ⟨hblocked, h⟩ := mem_visible.1 h
  simp only [hcall, false_and, false_or, hfirst] at h
  refine mem_visible.2 ⟨?_, Or.inr (by simpa only [hfirst] using h)⟩
  simpa [Front.isBlocked, hbare] using hblocked

end Printer

end CallBridge.Script
