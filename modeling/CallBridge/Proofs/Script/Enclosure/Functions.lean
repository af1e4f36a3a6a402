import CallBridge.Proofs.Script.Enclosure.Patterns
import CallBridge.Script.Parser.Function

/-!
# Placements in functions and classes

A function is read in surroundings of its own, and so are an arrow function except for its
parameters, the value of a field and a static block. What is read there fits the enclosure that
these nodes are for what stands in them.
-/

namespace CallBridge.Script

variable {ctx : Context} {r : Rules} {s : Span} {ts : List Tree}

/-! ### Nodes that are read in surroundings of their own -/

/-- What is read in the surroundings of a function fits the enclosure that the function is. -/
theorem Context.Holds.function {form : FunctionForm}
    (h : (Parser.functionContext form.isAsync form.isGenerator ctx).HoldsAll ts) :
    ctx.Holds (.node (.function form) s ts) :=
  fits_function.2 fun t ht => (h t ht).covers
    ⟨by simp [Context.enclosure, Parser.functionContext], id⟩

/-- A static block is read as a function that is neither asynchronous nor a generator. -/
theorem Context.Holds.staticBlock (h : (Parser.functionContext false false ctx).HoldsAll ts) :
    ctx.Holds (.node .staticBlock s ts) :=
  fits_staticBlock.2 fun t ht => (h t ht).covers
    ⟨by simp [Context.enclosure, Parser.functionContext], id⟩

/-- The parameters of an arrow function are read where it stands, except that `await` may stand in
those of an asynchronous one; its body is read as that of a function without `yield`. -/
theorem Context.Holds.arrow {isAsync : Bool} {params body : Tree}
    (hparams : ({ ctx with isAsync := isAsync || ctx.isAsync } : Context).Holds params)
    (hbody : (Parser.functionContext isAsync false ctx).Holds body) :
    ctx.Holds (.node (.arrow isAsync) s [params, body]) := by
  refine fits_arrow.2 ⟨hparams.covers ⟨?_, id⟩, hbody.covers ⟨?_, id⟩⟩
  · simp [Context.enclosure, or_assoc]
  · simp [Context.enclosure, Parser.functionContext]

/-- The value of a field is read as the body of a function, its key where the class stands. -/
theorem Context.Holds.field {isStatic computed : Bool} {key value : Tree} (hkey : ctx.Holds key)
    (hvalue : (Parser.functionContext false false ctx).Holds value) :
    ctx.Holds (.node (.field isStatic computed) s [key, value]) :=
  fits_field.2 ⟨hkey, hvalue.covers ⟨by simp [Context.enclosure, Parser.functionContext], id⟩⟩

namespace Parser

/-! ### Bodies -/

/-- Looking for the brace at the end of a body changes nothing. -/
theorem Quiet.untilBrace : Quiet (do return !((← Parser.atMark "\x7d") || (← Parser.atEnd))) :=
  Quiet.atMark.bind fun _ => Quiet.atEnd.bind fun _ => .pure _

theorem gives_statementsUntilBrace (hr : r.Sound) :
    Gives ctx ctx.HoldsAll (statementsUntilBrace r) := .repeatWhile .untilBrace (hr.statement ctx)

/-- A directive is a leaf. -/
theorem directiveOf?_holds {t : Token} {stmt d : Tree} (h : directiveOf? t stmt = some d) :
    ctx.Holds d := by
  unfold directiveOf? at h
  split at h
  · obtain rfl := Option.some.inj h
    exact .leaf rfl
  · cases h

/-- Directives, and the first statement that is none, all in the same surroundings. -/
theorem gives_directives (hr : r.Sound) :
    Gives ctx (fun read => ctx.HoldsAll (read.1 ++ read.2.toList)) (directives r) := by
  refine .read ?_
  generalize ctx.budget = budget
  induction budget with
  | zero => exact .skip .here fun _ => .fail
  | succ budget ih =>
    refine .skip .current fun t => ?_
    split
    · refine .bind (hr.statement ctx) fun stmt => ?_
      split
      · next d hd =>
        refine .bind ih fun (ds, first) => .pure fun hds _ => ?_
        exact Context.holdsAll_cons.2 ⟨directiveOf?_holds hd, hds⟩
      · exact .pure fun hstmt => by simp [hstmt]
    · exact .pure (by simp)

/-- The statements of a body fit where the body is read. -/
theorem gives_bodyItems (hr : r.Sound) {more : Parser Bool} (hmore : Quiet more) :
    Gives ctx ctx.HoldsAll (bodyItems r more) := by
  unfold bodyItems
  refine .bind (gives_directives hr) fun (ds, first) => ?_
  refine .bind (.repeatWhile hmore (hr.statement ctx)) fun rest => ?_
  exact .pure fun hrest hds => Context.holdsAll_append.2 ⟨hds, hrest⟩

theorem gives_functionBody (hr : r.Sound) : Gives ctx ctx.Holds (functionBody r) := by
  unfold functionBody
  refine .skip .here fun start => .skip .expectMark fun _ => ?_
  refine .bind (gives_bodyItems hr .untilBrace) fun items => .skip .expectMark fun _ => ?_
  exact .finish fun _ hitems => .node rfl hitems

theorem gives_returnType (hr : r.Sound) : Gives ctx ctx.Holds (returnType r) := by
  unfold returnType
  refine .read (.skip .eatMark fun _ => .ite (fun _ => ?_) fun _ => .pure .absent)
  exact hr.type ctx

/-! ### Functions -/

/-- A function fits wherever its name does: everything else in it is read in its own surroundings.
-/
theorem gives_functionRest (hr : r.Sound) (start : Nat) (form : FunctionForm) (name : Tree) :
    Gives ctx (fun t => SelfContained name → ctx.Holds t) (functionRest r start form name) := by
  unfold functionRest
  have hparts : Gives (functionContext form.isAsync form.isGenerator ctx)
      (fun x => (functionContext form.isAsync form.isGenerator ctx).HoldsAll [x.1, x.2.1, x.2.2])
      (do
        let params ← parameters r
        let type ← returnType r
        return (params, type, ← functionBody r)) := by
    refine .bind (gives_parameters hr) fun params => .bind (gives_returnType hr) fun type => ?_
    refine .bind (gives_functionBody hr) fun body => .pure fun hbody htype hparams => ?_
    simp [hparams, htype, hbody]
  refine .bind (.within hparts) fun (params, type, body) => ?_
  exact .finish fun _ hparts hname => .function (Context.holdsAll_cons.2 ⟨hname.fits _, hparts⟩)

/-- The name of an expression is bound inside it, that of a declaration outside; neither needs
anything of what is around it. -/
theorem gives_functionFrom (hr : r.Sound) (start : Nat) (isAsync isDeclaration nameless : Bool) :
    Gives ctx ctx.Holds (functionFrom r start isAsync isDeclaration nameless) := by
  unfold functionFrom
  refine .skip .expectWord fun _ => .skip .eatMark fun isGenerator => .skip .atMark fun opens => ?_
  extract_lets rest
  have hrest (name : Tree) : Gives ctx (fun t => SelfContained name → ctx.Holds t) (rest name) :=
    gives_functionRest hr start ⟨isAsync, isGenerator, isDeclaration⟩ name
  refine .ite (fun _ => .ite (fun _ => ?_) fun _ => ?_) fun _ => .ite (fun _ => ?_) fun _ => ?_
  · exact .bind .unexpected hrest
  · exact .bind (.pure (selfContained_leaf rfl)) hrest
  · exact .bind gives_bindingName hrest
  · exact .bind (.within gives_bindingName) hrest

theorem gives_functionExpression (hr : r.Sound) (isDeclaration nameless : Bool) :
    Gives ctx ctx.Holds (functionExpression r isDeclaration nameless) := by
  unfold functionExpression
  refine .skip .here fun start => .skip .eatWord fun isAsync => ?_
  exact gives_functionFrom hr start isAsync isDeclaration nameless

/-! ### Arrow functions -/

/-- An arrow function fits if its parameters fit the surroundings they were read in. -/
theorem gives_arrowRest (hr : r.Sound) (start : Nat) (isAsync : Bool) (params : Tree) :
    Gives ctx (fun t => ({ ctx with isAsync := isAsync || ctx.isAsync } : Context).Holds params →
      ctx.Holds t) (arrowRest r start isAsync params) := by
  unfold arrowRest
  refine .skip .expectMark fun _ => .read (.skip .atMark fun opens => ?_)
  extract_lets rest
  have hrest (body : Tree) :
      Gives ctx (fun t => (functionContext isAsync false ctx).Holds body →
        ({ ctx with isAsync := isAsync || ctx.isAsync } : Context).Holds params → ctx.Holds t)
        (rest body) := .finish fun _ hbody hparams => .arrow hparams hbody
  refine .ite (fun _ => ?_) fun _ => ?_
  · exact .bind (.within (gives_functionBody hr)) hrest
  · exact .bind (.within (hr.assignment _)) hrest

theorem gives_arrowOfParameters (hr : r.Sound) (start : Nat) (isAsync : Bool) :
    Gives ctx ctx.Holds (arrowOfParameters r start isAsync) := by
  unfold arrowOfParameters
  refine .bind (.within (gives_parameters hr)) fun params => ?_
  exact gives_arrowRest hr start isAsync params

/-- A single name for a parameter needs nothing. -/
theorem gives_arrowOfName (hr : r.Sound) (start : Nat) (isAsync : Bool) :
    Gives ctx ctx.Holds (arrowOfName r start isAsync) := by
  unfold arrowOfName
  refine .skip .here fun place => .bind (.within gives_bindingName) fun name => ?_
  refine .bind (.finish (Q := fun params => SelfContained name → SelfContained params)
    fun _ hname => (fits_of_isPlain rfl).2 (List.forall_mem_singleton.2 hname)) fun params => ?_
  exact (gives_arrowRest hr start isAsync params).mono fun t ht hparams hname =>
    ht ((hparams hname).fits _)

/-! ### Methods and members -/

/-- The value of a method is a function without a name. -/
theorem gives_methodRest (hr : r.Sound) (isAsync isGenerator : Bool) :
    Gives ctx ctx.Holds (methodRest r isAsync isGenerator) := by
  unfold methodRest
  refine .skip .here fun start => ?_
  exact (gives_functionRest hr start ⟨isAsync, isGenerator, false⟩ .absent).mono fun t ht =>
    ht (selfContained_leaf rfl)

theorem Quiet.modifies {word : String} {sameLine : Bool} : Quiet (modifies word sameLine) := by
  unfold Parser.modifies
  refine Quiet.atWord.bind fun _ => .ite (Quiet.next.bind fun t => .ite (.pure _) ?_) (.pure _)
  split <;> exact .pure _

/-- The words in front of a member are passed over; which ones they are is found by looking ahead.
-/
theorem Quiet.modifiers : Quiet modifiers := by
  unfold Parser.modifiers
  refine Quiet.modifies.bind fun isAsync => ?_
  extract_lets rest
  have hrest (u : Unit) : Quiet (rest u) := by
    refine Quiet.eatMark.bind fun _ => .ite (.pure _) (Quiet.modifies.bind fun _ => .ite ?_ ?_)
    · exact Quiet.advance.bind fun _ => .pure _
    · refine Quiet.modifies.bind fun _ => .ite ?_ (.pure _)
      exact Quiet.advance.bind fun _ => .pure _
  exact .ite (Quiet.advance.bind hrest) (hrest ())

theorem Quiet.staticFirst : Quiet staticFirst := by
  unfold Parser.staticFirst
  refine Quiet.atWord.bind fun _ => .ite (Quiet.next.bind fun t => ?_) (.pure _)
  split <;> exact .pure _

/-- The key of a member is read where the class stands, and its value as a function: a block, a
method or the value of a field. -/
theorem gives_classMember (hr : r.Sound) : Gives ctx ctx.Holds (classMember r) := by
  unfold classMember
  refine .skip .here fun start => .skip .staticFirst fun isStatic => ?_
  extract_lets member
  have hmember (u : Unit) : Gives ctx ctx.Holds (member u) := by
    refine .skip .atMark fun _ => .ite (fun _ => ?_) fun _ => ?_
    · refine .skip .advance fun _ => .bind (.within (gives_statementsUntilBrace hr)) fun items => ?_
      exact .skip .expectMark fun _ => .finish fun _ hitems => .staticBlock hitems
    refine .skip .modifiers fun m => .bind (gives_propertyKey hr) fun (key, computed) => ?_
    refine .skip .atMark fun _ => .ite (fun _ => ?_) fun _ => .skip .eatMark fun _ => ?_
    · refine .bind (gives_methodRest hr m.isAsync m.isGenerator) fun value => ?_
      exact .finish fun _ hvalue hkey => .node rfl (by simp [hkey, hvalue])
    extract_lets field
    have hfield (value : Tree) :
        Gives ctx (fun t => (functionContext false false ctx).Holds value → ctx.Holds key →
          ctx.Holds t) (field value) :=
      .skip .endStatement fun _ => .finish fun _ hvalue hkey => .field hkey hvalue
    refine .ite (fun _ => ?_) fun _ => ?_
    · exact .bind (.within (hr.assignment _)) hfield
    · exact .bind (.pure .absent) hfield
  exact .ite (fun _ => .skip .advance hmember) fun _ => hmember ()

/-- A class changes nothing for its parent and its keys. -/
theorem gives_classFrom (hr : r.Sound) (isDeclaration nameless : Bool) :
    Gives ctx ctx.Holds (classFrom r isDeclaration nameless) := by
  unfold classFrom
  refine .skip .here fun start => .skip .expectWord fun _ => ?_
  refine .skip .atMark fun _ => .skip .atWord fun _ => ?_
  extract_lets skipped named
  have hskipped : Quiet skipped :=
    Quiet.bind (.repeatWhile .eatMark (.pure ())) fun _ => .untilBrace
  have hnamed (name : Tree) :
      Gives ctx (fun t => SelfContained name → ctx.Holds t) (named name) := by
    refine .skip .eatWord fun _ => ?_
    extract_lets derived
    have hderived (parent : Tree) :
        Gives ctx (fun t => ctx.Holds parent → SelfContained name → ctx.Holds t)
          (derived parent) := by
      refine .skip .expectMark fun _ => .bind (.repeatWhile hskipped (gives_classMember hr)) ?_
      refine fun members => .skip .expectMark fun _ => .finish fun _ hmembers hparent hname => ?_
      refine .node rfl (Context.holdsAll_cons.2 ⟨hname.fits _, ?_⟩)
      exact Context.holdsAll_cons.2 ⟨hparent, hmembers⟩
    refine .ite (fun _ => ?_) fun _ => ?_
    · exact .bind (hr.callChain ctx) hderived
    · exact .bind (.pure .absent) hderived
  refine .ite (fun _ => .ite (fun _ => ?_) fun _ => ?_) fun _ => ?_
  · exact .bind .unexpected hnamed
  · exact .bind (.pure (selfContained_leaf rfl)) hnamed
  · exact .bind gives_bindingName hnamed

end Parser

end CallBridge.Script
