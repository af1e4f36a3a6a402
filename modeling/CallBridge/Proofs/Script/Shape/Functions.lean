import CallBridge.Proofs.Script.Shape.Patterns
import CallBridge.Script.Parser.Function

/-!
# Shapes of functions and classes

Bodies are lines, the members of a class are lines too, and what a method has for its value is a
function.
-/

namespace CallBridge.Script.Parser

variable {r : Rules}

/-! ### Bodies -/

theorem returns_statementsUntilBrace (hr : r.Shaped) :
    Returns (fun ts => ∀ t ∈ ts, ShapedAs Kind.isLine t) (statementsUntilBrace r) :=
  .repeatWhile hr.statement

/-- A directive keeps its text in its node and is printed as a line. -/
theorem directiveOf?_shapedAs {t : Token} {stmt d : Tree} (h : directiveOf? t stmt = some d) :
    ShapedAs Kind.isLine d := by
  unfold directiveOf? at h
  split at h
  · obtain rfl := Option.some.inj h
    exact ⟨.leaf rfl, rfl⟩
  · cases h

/-- Directives, and the first statement that is none, which has been read to find that out. -/
theorem returns_directives (hr : r.Shaped) :
    Returns (fun read => ∀ t ∈ read.1 ++ read.2.toList, ShapedAs Kind.isLine t)
      (directives r) := by
  refine .skip fun ctx => ?_
  generalize ctx.budget = budget
  induction budget with
  | zero => exact .skip fun _ => .fail
  | succ budget ih =>
    refine .skip fun t => ?_
    split
    · refine .bind hr.statement fun stmt hstmt => ?_
      split
      · next d hd =>
        refine .bind ih fun (ds, first) hds => .pure ?_
        exact List.forall_mem_cons.2 ⟨directiveOf?_shapedAs hd, hds⟩
      · exact .pure (List.forall_mem_singleton.2 hstmt)
    · exact .pure nofun

/-- A body has lines only: its directives, that first statement and the others. -/
theorem returns_bodyItems (hr : r.Shaped) (more : Parser Bool) :
    Returns (fun ts => ∀ t ∈ ts, ShapedAs Kind.isLine t) (bodyItems r more) := by
  unfold bodyItems
  refine .bind (returns_directives hr) fun (ds, first) hds => ?_
  refine .bind (.repeatWhile hr.statement) fun rest hrest => .pure ?_
  exact List.forall_mem_append.2 ⟨hds, hrest⟩

/-- The body of a function is a node with lines for children. -/
theorem returns_functionBody (hr : r.Shaped) : Returns WellShaped (functionBody r) := by
  unfold functionBody
  refine .skip fun start => .skip fun _ => .bind (returns_bodyItems hr _) fun items hitems => ?_
  refine .skip fun _ => .finish fun _ => ?_
  exact .node rfl (all_of_shapedAs hitems) (wellShaped_of_shapedAs hitems)

theorem returns_returnType (hr : r.Shaped) : Returns WellShaped (returnType r) := by
  unfold returnType
  refine .skip fun _ => .skip fun _ => ?_
  exact .ite (fun _ => hr.type) fun _ => .pure wellShaped_absent

/-! ### Functions -/

/-- A function has its name, its parameters, its type and its body, and the form it was begun with.
-/
theorem returns_functionRest (hr : r.Shaped) (start : Nat) (form : FunctionForm) {name : Tree}
    (hname : ShapedAs Kind.isLeaf name) :
    Returns (fun t => WellShaped t ∧ t.kind = .function form)
      (functionRest r start form name) := by
  unfold functionRest
  have hparts : Returns (fun x : Tree × Tree × Tree => ∀ t ∈ [x.1, x.2.1, x.2.2], WellShaped t)
      (do
        let params ← parameters r
        let type ← returnType r
        return (params, type, ← functionBody r)) := by
    refine .bind (returns_parameters hr) fun params hparams => ?_
    refine .bind (returns_returnType hr) fun type htype => ?_
    refine .bind (returns_functionBody hr) fun body hbody => .pure ?_
    simp [hparams, htype, hbody]
  refine .bind (.within hparts) fun (params, type, body) hparts => .finish fun _ => ⟨?_, rfl⟩
  exact .node rfl hname.2 (List.forall_mem_cons.2 ⟨hname.1, hparts⟩)

/-- A function is a line if it is read as a declaration. -/
theorem returns_functionFrom (hr : r.Shaped) (start : Nat)
    (isAsync isDeclaration nameless : Bool) :
    Returns (ShapedAs fun k => !isDeclaration || k.isLine)
      (functionFrom r start isAsync isDeclaration nameless) := by
  unfold functionFrom
  refine .skip fun _ => .skip fun isGenerator => .skip fun opens => ?_
  extract_lets rest
  have hrest (name : Tree) (hname : ShapedAs Kind.isLeaf name) :
      Returns (ShapedAs fun k => !isDeclaration || k.isLine) (rest name) := by
    refine (returns_functionRest hr start _ hname).mono fun t ht => ⟨ht.1, ?_⟩
    simp [ht.2, Kind.isLine]
  refine .ite (fun _ => .ite (fun _ => ?_) fun _ => ?_) fun _ => .ite (fun _ => ?_) fun _ => ?_
  · exact .bind .unexpected hrest
  · exact .bind (.pure shapedAs_absent) hrest
  · exact .bind returns_bindingName hrest
  · exact .bind (.within returns_bindingName) hrest

theorem returns_functionExpression (hr : r.Shaped) (isDeclaration nameless : Bool) :
    Returns (ShapedAs fun k => !isDeclaration || k.isLine)
      (functionExpression r isDeclaration nameless) := by
  unfold functionExpression
  exact .skip fun start => .skip fun isAsync =>
    returns_functionFrom hr start isAsync isDeclaration nameless

/-! ### Arrow functions -/

/-- The body of an arrow function is lines in braces or an expression. -/
theorem returns_arrowRest (hr : r.Shaped) (start : Nat) (isAsync : Bool) {params : Tree}
    (hparams : WellShaped params) : Returns WellShaped (arrowRest r start isAsync params) := by
  unfold arrowRest
  refine .skip fun _ => .skip fun ctx => .skip fun opens => ?_
  extract_lets rest
  have hrest (body : Tree) (hbody : WellShaped body) : Returns WellShaped (rest body) :=
    .finish fun _ => .node rfl rfl (forall_mem_pair.2 ⟨hparams, hbody⟩)
  refine .ite (fun _ => ?_) fun _ => ?_
  · exact .bind (.within (returns_functionBody hr)) hrest
  · exact .bind (.within hr.assignment) hrest

theorem returns_arrowOfParameters (hr : r.Shaped) (start : Nat) (isAsync : Bool) :
    Returns WellShaped (arrowOfParameters r start isAsync) := by
  unfold arrowOfParameters
  refine .bind (.within (returns_parameters hr)) fun params hparams => ?_
  exact returns_arrowRest hr start isAsync hparams

/-- A single name in front of an arrow stands for a list of one parameter. -/
theorem returns_arrowOfName (hr : r.Shaped) (start : Nat) (isAsync : Bool) :
    Returns WellShaped (arrowOfName r start isAsync) := by
  unfold arrowOfName
  refine .skip fun place => .bind (.within returns_bindingName) fun name hname => ?_
  refine .bind (.finish (Q := WellShaped) fun _ => ?_) fun params hparams => ?_
  · exact .node rfl rfl (List.forall_mem_singleton.2 hname.1)
  · exact returns_arrowRest hr start isAsync hparams

/-! ### Methods and members -/

/-- What a method has for its value is a function without a name. -/
theorem returns_methodRest (hr : r.Shaped) (isAsync isGenerator : Bool) :
    Returns (ShapedAs Kind.isFunction) (methodRest r isAsync isGenerator) := by
  unfold methodRest
  refine .skip fun start => (returns_functionRest hr start _ shapedAs_absent).mono fun t ht => ?_
  exact ⟨ht.1, by rw [ht.2]; rfl⟩

/-- A member of a class is a line, be it a block, a method or a field. -/
theorem returns_classMember (hr : r.Shaped) : Returns (ShapedAs Kind.isLine) (classMember r) := by
  unfold classMember
  refine .skip fun start => .skip fun isStatic => ?_
  extract_lets member
  have hmember (u : Unit) : Returns (ShapedAs Kind.isLine) (member u) := by
    refine .skip fun _ => .ite (fun _ => .skip fun _ => ?_) fun _ => .skip fun m => ?_
    · refine .bind (.within (returns_statementsUntilBrace hr)) fun items hitems => ?_
      refine .skip fun _ => .finish fun _ => ⟨?_, rfl⟩
      exact .node rfl (all_of_shapedAs hitems) (wellShaped_of_shapedAs hitems)
    refine .bind (returns_propertyKey hr) fun (key, computed) hkey => .skip fun _ => ?_
    refine .ite (fun _ => ?_) fun _ => .skip fun _ => ?_
    · refine .bind (returns_methodRest hr m.isAsync m.isGenerator) fun value hvalue => ?_
      refine .finish fun _ => ⟨?_, rfl⟩
      exact .node rfl hvalue.2 (forall_mem_pair.2 ⟨hkey, hvalue.1⟩)
    extract_lets field
    have hfield (value : Tree) (hvalue : WellShaped value) :
        Returns (ShapedAs Kind.isLine) (field value) :=
      .skip fun _ => .finish fun _ => ⟨.node rfl rfl (forall_mem_pair.2 ⟨hkey, hvalue⟩), rfl⟩
    refine .ite (fun _ => ?_) fun _ => ?_
    · exact .bind (.within hr.assignment) hfield
    · exact .bind (.pure wellShaped_absent) hfield
  exact .ite (fun _ => .skip hmember) fun _ => hmember ()

/-- A class has its name, its parent and lines for members; both of the former may be absent. -/
theorem returns_classFrom (hr : r.Shaped) (isDeclaration nameless : Bool) :
    Returns (ShapedAs fun k => !isDeclaration || k.isLine)
      (classFrom r isDeclaration nameless) := by
  unfold classFrom
  refine .skip fun start => .skip fun _ => .skip fun _ => .skip fun _ => ?_
  extract_lets skipped named
  have hnamed (name : Tree) (hname : WellShaped name) :
      Returns (ShapedAs fun k => !isDeclaration || k.isLine) (named name) := by
    refine .skip fun _ => ?_
    extract_lets derived
    have hderived (parent : Tree) (hparent : WellShaped parent) :
        Returns (ShapedAs fun k => !isDeclaration || k.isLine) (derived parent) := by
      refine .skip fun _ => .bind (.repeatWhile (returns_classMember hr)) fun members hmembers => ?_
      refine .skip fun _ => .finish fun _ => ⟨.node ?_ (all_of_shapedAs hmembers) ?_, ?_⟩
      · have htwo : 2 ≤ (name :: parent :: members).length := Nat.le_add_left 2 _
        exact decide_eq_true htwo
      · exact List.forall_mem_cons.2
          ⟨hname, List.forall_mem_cons.2 ⟨hparent, wellShaped_of_shapedAs hmembers⟩⟩
      · exact Bool.not_or_self isDeclaration
    refine .ite (fun _ => ?_) fun _ => ?_
    · exact .bind hr.callChain hderived
    · exact .bind (.pure wellShaped_absent) hderived
  refine .ite (fun _ => .ite (fun _ => ?_) fun _ => ?_) fun _ => ?_
  · exact .bind .unexpected hnamed
  · exact .bind (.pure wellShaped_absent) hnamed
  · exact .bind (returns_bindingName.mono fun _ hname => hname.1) hnamed

end CallBridge.Script.Parser
