import CallBridge.Script.Tree

/-!
# Scopes

Which names of a tree are free: those that it refers to and that nothing around them in the tree
introduces. A pattern introduces names (`boundNames`); a statement declares them for the block that
it stands in (`declaredNames`) or for the whole function (`hoistedNames`). In sloppy code, unlike in
strict code, a function in a block is declared for the whole function as well; all statements here
hold of both. Free names are listed once for each place that refers to them, in the order of the
text.

Main statement: what is free in a tree is referred to by one of its nodes (`refersTo_of_freeNames`).
-/

namespace CallBridge.Script

/-- The name that a node refers to by itself. A dotted type begins with one. -/
def Kind.referred? : Kind → Option String
  | .reference name | .target name => some name
  | .typeName name => some (String.ofList (name.toList.takeWhile (· != '.')))
  | _ => none

namespace Tree

/-- Whether some node of a tree refers to a name. -/
def RefersTo (t : Tree) (name : String) : Prop := ∃ u ∈ t.subtrees, u.kind.referred? = some name

instance (t : Tree) (name : String) : Decidable (t.RefersTo name) :=
  inferInstanceAs (Decidable (∃ u ∈ t.subtrees, u.kind.referred? = some name))

/-! ### Names that are introduced -/

/-- The names that a pattern or a specifier introduces. Keys and defaults introduce none. -/
def boundNames : Tree → List String :=
  fold fun k _ cs =>
    match k, cs with
    | .binding name, _ => [name]
    | .importDefault name, _ => [name]
    | .importNamespace name, _ => [name]
    | .importNamed _ name, _ => [name]
    | .parameters, items => items.flatMap Prod.snd
    | .objectPattern, items => items.flatMap Prod.snd
    | .arrayPattern, items => items.flatMap Prod.snd
    | .patternProperty .., [_, (_, names)] => names
    | .withDefault, (_, names) :: _ => names
    | .typed _, (_, names) :: _ => names
    | .rest, (_, names) :: _ => names
    | .declarator, (_, names) :: _ => names
    | _, _ => []

/-- The names that a statement declares for the block that it stands in. -/
def declaredNames : Tree → List String :=
  fold fun k _ cs =>
    match k, cs with
    | .variableList .let, items => items.flatMap fun c => c.1.boundNames
    | .variableList .const, items => items.flatMap fun c => c.1.boundNames
    | .importDeclaration .., items => items.flatMap fun c => c.1.boundNames
    | .function ⟨_, _, true⟩, (name, _) :: _ => name.boundNames
    | .classLike true, (name, _) :: _ => name.boundNames
    | .exportDeclaration, [(_, names)] => names
    | .exportDefault, [(_, names)] => names
    | .labeled _, [(_, names)] => names
    | _, _ => []

/-- The names that a statement declares for the function that it stands in, from however deep. -/
def hoistedNames (sloppy : Bool) : Tree → List String :=
  fold fun k _ cs =>
    match k, cs with
    | .variableList .var, items => items.flatMap fun c => c.1.boundNames
    | .function ⟨false, false, true⟩, (name, _) :: _ => if sloppy then name.boundNames else []
    | .block, parts => parts.flatMap Prod.snd
    | .ifElse, parts => parts.flatMap Prod.snd
    | .forLoop, parts => parts.flatMap Prod.snd
    | .forIn, parts => parts.flatMap Prod.snd
    | .forOf _, parts => parts.flatMap Prod.snd
    | .whileLoop, parts => parts.flatMap Prod.snd
    | .doWhile, parts => parts.flatMap Prod.snd
    | .withScope, parts => parts.flatMap Prod.snd
    | .labeled _, parts => parts.flatMap Prod.snd
    | .switch, parts => parts.flatMap Prod.snd
    | .case, parts => parts.flatMap Prod.snd
    | .tryCatch, parts => parts.flatMap Prod.snd
    | .handler, parts => parts.flatMap Prod.snd
    | .exportDeclaration, parts => parts.flatMap Prod.snd
    | _, _ => []

/-- The names that a node introduces for all its parts. Only a function that is no arrow has
`arguments` of its own, and the name of a function or class is known inside it. -/
def introduced (sloppy : Bool) (k : Kind) (cs : List Tree) : List String :=
  match k, cs with
  | .function _, name :: params :: _ => "arguments" :: (name.boundNames ++ params.boundNames)
  | .arrow _, params :: _ => params.boundNames
  | .classLike _, name :: _ => name.boundNames
  | .handler, param :: _ => param.boundNames
  | .forLoop, start :: _ => start.declaredNames
  | .forIn, left :: _ => left.declaredNames
  | .forOf _, left :: _ => left.declaredNames
  | .block, items => items.flatMap declaredNames
  | .body, items => items.flatMap declaredNames ++ items.flatMap (hoistedNames sloppy)
  | .staticBlock, items => items.flatMap declaredNames ++ items.flatMap (hoistedNames sloppy)
  | .program _, items => items.flatMap declaredNames ++ items.flatMap (hoistedNames sloppy)
  | _, _ => []

/-! ### Free names -/

/-- The free names of a tree, one for each place. The cases of a `switch` are one block, which its
value stands in front of. -/
def freeNames (sloppy : Bool) : Tree → List String :=
  fold fun k _ cs =>
    match k, cs with
    | .switch, (_, value) :: cases =>
      let declared := cases.flatMap fun c => c.1.children.tail.flatMap declaredNames
      value ++ (cases.flatMap Prod.snd).filter (· ∉ declared)
    | k, cs =>
      k.referred?.toList ++
        (cs.flatMap Prod.snd).filter (· ∉ introduced sloppy k (cs.map Prod.fst))

variable {sloppy : Bool} {k : Kind} {s : Span} {cs : List Tree} {t : Tree} {name : String}

theorem freeNames_node (h : k ≠ .switch) :
    freeNames sloppy (node k s cs) =
      k.referred?.toList ++
        (cs.flatMap (freeNames sloppy)).filter (· ∉ introduced sloppy k cs) := by
  rw [freeNames, fold_node]
  split
  · exact absurd rfl h
  · simp [List.flatMap_map, List.map_map, Function.comp_def]

/-- In a `switch`, the cases are one block; its value stands in front of it. -/
theorem freeNames_switch (value : Tree) (cases : List Tree) :
    freeNames sloppy (node .switch s (value :: cases)) =
      freeNames sloppy value ++ (cases.flatMap (freeNames sloppy)).filter
        (· ∉ cases.flatMap fun c => c.children.tail.flatMap declaredNames) := by
  rw [freeNames, fold_node]
  simp only [List.map_cons, List.flatMap_map]

/-- A node that introduces nothing has the free names of its parts. -/
theorem freeNames_of_introduced_eq_nil (hk : k ≠ .switch) (h : introduced sloppy k cs = []) :
    freeNames sloppy (node k s cs) = k.referred?.toList ++ cs.flatMap (freeNames sloppy) := by
  rw [freeNames_node hk, h]
  simp

theorem freeNames_leaf (h : k ≠ .switch) :
    freeNames sloppy (node k s []) = k.referred?.toList := by
  rw [freeNames_node h]
  simp

/-- What is free in a node is free in a part of it or referred to by the node. -/
theorem mem_freeNames_node (h : name ∈ freeNames sloppy (node k s cs)) :
    k.referred? = some name ∨ ∃ c ∈ cs, name ∈ freeNames sloppy c := by
  by_cases hk : k = .switch
  · subst hk
    cases cs with
    | nil => simp [freeNames, fold_node, Kind.referred?] at h
    | cons value cases =>
      rw [freeNames_switch, List.mem_append, List.mem_filter, List.mem_flatMap] at h
      rcases h with hvalue | ⟨⟨c, hc, hname⟩, -⟩
      · exact Or.inr ⟨value, List.mem_cons_self .., hvalue⟩
      · exact Or.inr ⟨c, List.mem_cons_of_mem _ hc, hname⟩
  · rw [freeNames_node hk, List.mem_append, List.mem_filter, List.mem_flatMap,
      Option.mem_toList] at h
    exact h.imp_right And.left

/-- What is free in a tree is referred to by one of its nodes. -/
theorem refersTo_of_freeNames (h : name ∈ freeNames sloppy t) : t.RefersTo name := by
  induction t with
  | node k s cs ih =>
    rw [RefersTo, subtrees_node]
    rcases mem_freeNames_node h with hown | ⟨c, hc, h⟩
    · exact ⟨_, List.mem_cons_self .., hown⟩
    · obtain ⟨u, hu, hname⟩ := ih c hc h
      exact ⟨u, List.mem_cons_of_mem _ (List.mem_flatMap.2 ⟨c, hc, hu⟩), hname⟩

end Tree

end CallBridge.Script
