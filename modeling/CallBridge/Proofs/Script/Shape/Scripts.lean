import CallBridge.Proofs.Script.Enclosure.Scripts
import CallBridge.Proofs.Script.Shape.Statements

/-!
# Shapes of files

Imports, exports and whole files are well shaped. Main statement: so is the tree of every file that
can be read (`wellShaped_of_parseScript`).
-/

namespace CallBridge.Script

namespace Parser

variable {r : Rules}

/-! ### Imports -/

/-- An imported name is a leaf that keeps both of its names. -/
theorem returns_importItem : Returns (ShapedAs Kind.isSpecifier) importItem := by
  unfold importItem
  refine .skip fun start => .skip fun t => .skip fun imported => .skip fun _ => ?_
  have hnamed (name : String) :
      Returns (ShapedAs Kind.isSpecifier) (finish start (.importNamed imported name) []) :=
    .finish fun _ => ⟨.leaf rfl, rfl⟩
  refine .ite (fun _ => .skip hnamed) fun _ => ?_
  split
  · exact .skip fun _ => .ite (fun _ => hnamed _) fun _ => .skip fun _ => hnamed _
  · exact .failExpected

theorem returns_importRest :
    Returns (fun ts => ∀ t ∈ ts, ShapedAs Kind.isSpecifier t) importRest := by
  unfold importRest
  refine .skip fun start => .skip fun _ => .ite (fun _ => ?_) fun _ => .skip fun _ => ?_
  · refine .skip fun _ => .skip fun name => .map (.finish fun _ => ?_)
    exact List.forall_mem_singleton.2 ⟨.leaf rfl, rfl⟩
  · refine .bind (.delimited returns_importItem) fun items hitems => ?_
    exact .skip fun _ => .pure hitems

/-- The default of a file, if there is one, stands in front of its other names. -/
theorem returns_importSpecifiers :
    Returns (fun ts => ∀ t ∈ ts, ShapedAs Kind.isSpecifier t) importSpecifiers := by
  unfold importSpecifiers
  refine .skip fun start => .skip fun t => ?_
  split
  · refine .skip fun name => ?_
    refine .bind (.finish (Q := ShapedAs Kind.isSpecifier) fun _ => ?_) fun first hfirst => ?_
    · exact ⟨.leaf rfl, rfl⟩
    refine .skip fun _ => .ite (fun _ => .map (returns_importRest.mono ?_)) fun _ => .pure ?_
    · exact fun items hitems => List.forall_mem_cons.2 ⟨hfirst, hitems⟩
    · exact List.forall_mem_singleton.2 hfirst
  · exact returns_importRest

/-- An import has leaves for children, none if it is there for its effect alone. -/
theorem returns_importDeclaration : Returns (ShapedAs Kind.isLine) importDeclaration := by
  unfold importDeclaration
  refine .skip fun start => .skip fun _ => .skip fun _ => .skip fun t => ?_
  split
  · exact .skip fun source => .skip fun _ => .finish fun _ => ⟨.node rfl rfl nofun, rfl⟩
  · refine .bind returns_importSpecifiers fun items hitems => .skip fun _ => .skip fun source => ?_
    refine .skip fun _ => .finish fun _ => ⟨?_, rfl⟩
    exact .node rfl (all_of_shapedAs hitems) (wellShaped_of_shapedAs hitems)

/-! ### Exports -/

theorem returns_exportItem : Returns (ShapedAs Kind.isSpecifier) exportItem := by
  unfold exportItem
  refine .skip fun start => .skip fun name => .skip fun _ => ?_
  extract_lets node
  have hnode (exported : ModuleName) : Returns (ShapedAs Kind.isSpecifier) (node exported) :=
    .finish fun _ => ⟨.leaf rfl, rfl⟩
  refine .ite (fun _ => ?_) fun _ => ?_
  · exact .skip hnode
  · exact .skip hnode

/-- Names that are exported keep the file they are from in the node of their list. -/
theorem returns_exportList (start : Nat) :
    Returns (ShapedAs Kind.isLine) (exportList start) := by
  unfold exportList
  refine .skip fun _ => .bind (.delimited returns_exportItem) fun items hitems => ?_
  refine .skip fun _ => .skip fun _ => ?_
  extract_lets node
  have hnode (source : Option Text) : Returns (ShapedAs Kind.isLine) (node source) := by
    refine .skip fun _ => .finish fun _ => ⟨?_, rfl⟩
    exact .node rfl (all_of_shapedAs hitems) (wellShaped_of_shapedAs hitems)
  refine .ite (fun _ => ?_) fun _ => ?_
  · exact .skip hnode
  · exact .skip hnode

/-- An export of all names has no children. -/
theorem returns_exportAll (start : Nat) : Returns (ShapedAs Kind.isLine) (exportAll start) := by
  unfold exportAll
  refine .skip fun _ => .skip fun _ => ?_
  extract_lets node
  have hnode (name : Option ModuleName) : Returns (ShapedAs Kind.isLine) (node name) :=
    .skip fun _ => .skip fun source => .skip fun _ => .finish fun _ => ⟨.leaf rfl, rfl⟩
  refine .ite (fun _ => ?_) fun _ => ?_
  · exact .skip hnode
  · exact .skip hnode

/-- A default has one child: a declaration, which may have no name, or an expression. -/
theorem returns_exportDefault (hr : r.Shaped) (start : Nat) :
    Returns (ShapedAs Kind.isLine) (exportDefault r start) := by
  unfold exportDefault
  refine .skip fun _ => .skip fun t => .skip fun isFunction => .skip fun atAsync => ?_
  extract_lets isAsync node
  have hnode (value : Tree) (hvalue : WellShaped value) :
      Returns (ShapedAs Kind.isLine) (node value) :=
    .finish fun _ => ⟨.node rfl rfl (List.forall_mem_singleton.2 hvalue), rfl⟩
  refine .skip fun _ => .ite (fun _ => ?_) fun _ => .ite (fun _ => ?_) fun _ => ?_
  · exact .bind ((returns_functionExpression hr true true).mono fun _ ht => ht.1) hnode
  · exact .bind ((returns_classFrom hr true true).mono fun _ ht => ht.1) hnode
  · refine .bind (returns_fullAssignment hr) fun value hvalue => .skip fun _ => ?_
    exact .bind (.pure hvalue) hnode

/-- An export is a line. What it declares is a line of its own. -/
theorem returns_exportDeclaration (hr : r.Shaped) :
    Returns (ShapedAs Kind.isLine) (exportDeclaration r) := by
  unfold exportDeclaration
  refine .skip fun start => .skip fun _ => .skip fun _ => ?_
  refine .skip fun _ => .ite (fun _ => returns_exportAll start) fun _ => ?_
  refine .skip fun _ => .ite (fun _ => returns_exportList start) fun _ => ?_
  refine .skip fun _ => .ite (fun _ => returns_exportDefault hr start) fun _ => .skip fun t => ?_
  extract_lets declares node
  have hnode (u : Unit) : Returns (ShapedAs Kind.isLine) (node u) := by
    refine .bind hr.statement fun item hitem => .finish fun _ => ⟨?_, rfl⟩
    exact .node rfl hitem.2 (List.forall_mem_singleton.2 hitem.1)
  exact .ite (fun _ => hnode ()) fun _ => .skip hnode

/-- At the top level stand imports and exports as well as statements. -/
theorem returns_topLevelItem (hr : r.Shaped) :
    Returns (ShapedAs Kind.isLine) (topLevelItem r) := by
  unfold topLevelItem
  refine .skip fun _ => .ite (fun _ => .skip fun t => ?_) fun _ => .skip fun _ => ?_
  · exact .ite (fun _ => hr.statement) fun _ => returns_importDeclaration
  · exact .ite (fun _ => returns_exportDeclaration hr) fun _ => hr.statement

/-! ### Files -/

/-- A file is a body whose statements are read by the rule for its top level. -/
theorem returns_program (hr : r.Shaped) (hashbang : Option String) (stop : Nat) :
    Returns WellShaped (program r hashbang stop) := by
  have htop : ({ r with statement := topLevelItem r } : Rules).Shaped :=
    { hr with statement := returns_topLevelItem hr }
  unfold program
  refine .bind (returns_bodyItems htop _) fun items hitems => .pure ?_
  exact .node rfl (all_of_shapedAs hitems) (wellShaped_of_shapedAs hitems)

end Parser

/-- The tree of a file that can be read is well shaped. -/
theorem wellShaped_of_parseScript {dialect : Dialect} {source : String} {program : Program}
    (h : parseScript dialect source = .ok program) : WellShaped program.tree := by
  unfold parseScript at h
  obtain ⟨t, ht, h⟩ := exists_of_bind_ok h
  obtain rfl := Except.ok.inj h
  obtain ⟨s, hrun, -⟩ := Parser.runs_of_run ht
  exact Parser.returns_program (Parser.shaped_rules _) _ _ _ _ _ _ hrun

end CallBridge.Script
