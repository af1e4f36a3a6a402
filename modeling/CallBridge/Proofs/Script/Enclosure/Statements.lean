import CallBridge.Proofs.Script.Enclosure.Expressions
import CallBridge.Script.Parser.Statement

/-!
# Placements in statements

Every rule for statements gives trees that fit where they stand, so all rules do at every depth
(`sound_rules`).
-/

namespace CallBridge.Script.Parser

variable {ctx : Context} {r : Rules}

/-- A block changes nothing for the statements in it. -/
theorem gives_block (hr : r.Sound) : Gives ctx ctx.Holds (block r) := by
  unfold block
  refine .skip .here fun start => .skip .expectMark fun _ => ?_
  refine .bind (gives_statementsUntilBrace hr) fun items => .skip .expectMark fun _ => ?_
  exact .finish fun _ hitems => .node rfl hitems

/-- A condition is read where its statement stands. -/
theorem gives_condition (hr : r.Sound) : Gives ctx ctx.Holds (condition r) := by
  unfold condition
  refine .skip .expectMark fun _ => .bind (gives_fullExpression hr) fun test => ?_
  exact .skip .expectMark fun _ => .pure id

/-! ### Declarations of variables -/

/-- The pattern and the value of a declarator are read where it stands. That a value is missing is
complained about. -/
theorem gives_declarator (hr : r.Sound) (kind : VariableKind) (needsValue : Bool) :
    Gives ctx ctx.Holds (declarator r kind needsValue) := by
  unfold declarator
  refine .skip .here fun start => .bind (hr.pattern ctx) fun first => ?_
  refine .bind (gives_annotated hr start first) fun pattern => .skip .eatMark fun _ => ?_
  refine .ite (fun _ => ?_) fun _ => ?_
  · refine .bind (hr.assignment ctx) fun value => ?_
    exact .finish fun _ hvalue hpattern hfirst => .node rfl (by simp [hpattern hfirst, hvalue])
  extract_lets node
  have hnode (u : Unit) :
      Gives ctx (fun t => (ctx.Holds first → ctx.Holds pattern) → ctx.Holds first → ctx.Holds t)
        (node u) :=
    .finish fun _ hpattern hfirst =>
      .node rfl (by simp [hpattern hfirst, Context.Holds.absent])
  have hcomplain {problem : Problem} : Quiet (complain problem start) := fun _ => .complain
  refine .ite (fun _ => ?_) fun _ => hnode ()
  split
  · exact .skip hcomplain hnode
  · exact .skip hcomplain hnode
  · exact .ite (fun _ => .skip hcomplain hnode) fun _ => hnode ()

theorem gives_declarators (hr : r.Sound) (kind : VariableKind) (needsValue : Bool) :
    Gives ctx ctx.HoldsAll (declarators r kind needsValue) := by
  unfold declarators
  refine .bind (gives_declarator hr kind needsValue) fun first => ?_
  refine .map ((Gives.repeatWhile .eatMark (gives_declarator hr kind needsValue)).mono ?_)
  exact fun more hmore hfirst => Context.holdsAll_cons.2 ⟨hfirst, hmore⟩

/-- Which declaration begins here is found by looking ahead. -/
theorem Quiet.variableKind? : Quiet variableKind? := by
  unfold Parser.variableKind?
  refine Quiet.current.bind fun t => ?_
  split
  · exact .pure _
  · exact .pure _
  · refine Quiet.next.bind fun u => ?_
    split
    · exact .pure _
    · exact .pure _
    · exact .pure _
  · exact .pure _

theorem gives_variableList (hr : r.Sound) (kind : VariableKind) :
    Gives ctx ctx.Holds (variableList r kind) := by
  unfold variableList
  refine .skip .here fun start => .skip .advance fun _ => ?_
  refine .bind (gives_declarators hr kind true) fun items => .skip .endStatement fun _ => ?_
  exact .finish fun _ hitems => .node rfl hitems

/-! ### Loops -/

/-- What stands in front of the first separator of a `for` fits. -/
def ForHead.Holds (ctx : Context) : ForHead → Prop
  | .nothing => True
  | .declared _ _ items => ctx.HoldsAll items
  | .expression t => ctx.Holds t

/-- What stands in front of the first separator fits, whichever loop it turns out to belong to. -/
theorem gives_forHead (hr : r.Sound) : Gives ctx (ForHead.Holds ctx) (forHead r) := by
  unfold forHead
  refine .skip .here fun start => .skip .atMark fun _ => .ite (fun _ => .pure trivial) fun _ => ?_
  refine .skip .variableKind? fun kind => ?_
  split
  · refine .skip .advance fun _ => ?_
    refine .bind (.within (gives_declarators hr _ false)) fun items => .pure id
  · exact .map (.allowing (fun _ => gives_expression hr) false)

/-- A loop over a value reads its target, its value and its body where it stands, whichever word is
in between. -/
theorem gives_forEach (hr : r.Sound) (start : Nat) {kind : Kind} (hk : kind.isPlain) (left : Tree) :
    Gives ctx (fun t => ctx.Holds left → ctx.Holds t) (forEach r start kind left) := by
  unfold forEach
  refine .skip .advance fun _ => ?_
  extract_lets node
  have hnode (object : Tree) :
      Gives ctx (fun t => ctx.Holds object → ctx.Holds left → ctx.Holds t) (node object) := by
    refine .skip .expectMark fun _ => .bind (hr.statement ctx) fun body => ?_
    exact .finish fun _ hbody hobject hleft => .node hk (by simp [hleft, hobject, hbody])
  refine .ite (fun _ => ?_) fun _ => ?_
  · exact .bind (gives_fullExpression hr) hnode
  · exact .bind (gives_fullAssignment hr) hnode

/-- The beginning of a counting loop is complained about where a value is missing, and fits
otherwise. -/
theorem gives_forInit (head : ForHead) :
    Gives ctx (fun t => head.Holds ctx → ctx.Holds t) (forInit head) := by
  unfold forInit
  split
  · exact .pure fun _ => .absent
  · exact .pure id
  · refine .skip (.forIn (fun item u => ?_) _) fun _ => .finish fun _ hitems => .node rfl hitems
    have hcomplain {problem : Problem} {offset : Nat} :
        Quiet (do
          complain problem offset
          return ForInStep.yield PUnit.unit) := Quiet.bind (fun _ => .complain) fun _ => .pure _
    split
    · exact hcomplain
    · exact hcomplain
    · exact .ite hcomplain (.pure _)
    · exact .pure _

/-- Both sorts of loops with `for` change nothing for their parts. The head fits by an assumption
that is carried along until the separator is read. -/
theorem gives_forStatement (hr : r.Sound) : Gives ctx ctx.Holds (forStatement r) := by
  unfold forStatement
  refine .skip .here fun start => .skip .advance fun _ => .skip .eatWord fun isAwait => ?_
  refine .skip .expectMark fun _ => .bind (gives_forHead hr) fun head => ?_
  extract_lets left
  have hleft : Gives ctx (fun t => head.Holds ctx → ctx.Holds t) (left head) := by
    cases head with
    | nothing => exact .unexpected
    | declared kind s items => exact .finish fun _ hitems => .node rfl hitems
    | expression t => exact gives_assignable t
  have heach {k : Kind} (hk : k.isPlain) :
      Gives ctx (fun t => head.Holds ctx → ctx.Holds t)
        (do forEach r start k (← left head)) := by
    refine .bind hleft fun target => ?_
    exact (gives_forEach hr start hk target).mono fun t ht htarget hhead => ht (htarget hhead)
  refine .skip .atWord fun _ => .ite (fun _ => heach rfl) fun _ => ?_
  refine .skip .atWord fun _ => .ite (fun _ => heach rfl) fun _ => ?_
  refine .bind (gives_forInit head) fun init => .skip .expectMark fun _ => .skip .atMark fun _ => ?_
  extract_lets tested
  have htested (test : Tree) :
      Gives ctx (fun t => ctx.Holds test → (head.Holds ctx → ctx.Holds init) → head.Holds ctx →
        ctx.Holds t) (tested test) := by
    refine .skip .expectMark fun _ => .skip .atMark fun _ => ?_
    extract_lets updated
    have hupdated (update : Tree) :
        Gives ctx (fun t => ctx.Holds update → ctx.Holds test → (head.Holds ctx → ctx.Holds init) →
          head.Holds ctx → ctx.Holds t) (updated update) := by
      refine .skip .expectMark fun _ => .bind (hr.statement ctx) fun body => ?_
      refine .finish fun _ hbody hupdate htest hinit hhead => .node rfl ?_
      simp [hinit hhead, htest, hupdate, hbody]
    refine .ite (fun _ => ?_) fun _ => ?_
    · exact .bind (.pure .absent) hupdated
    · exact .bind (gives_fullExpression hr) hupdated
  refine .ite (fun _ => ?_) fun _ => ?_
  · exact .bind (.pure .absent) htested
  · exact .bind (gives_fullExpression hr) htested

/-- Loops, branches and jumps change nothing for what is in them. -/
theorem gives_whileStatement (hr : r.Sound) : Gives ctx ctx.Holds (whileStatement r) := by
  unfold whileStatement
  refine .skip .here fun start => .skip .advance fun _ => ?_
  refine .bind (gives_condition hr) fun test => .bind (hr.statement ctx) fun body => ?_
  exact .finish fun _ hbody htest => .node rfl (by simp [htest, hbody])

theorem gives_doStatement (hr : r.Sound) : Gives ctx ctx.Holds (doStatement r) := by
  unfold doStatement
  refine .skip .here fun start => .skip .advance fun _ => .bind (hr.statement ctx) fun body => ?_
  refine .skip .expectWord fun _ => .bind (gives_condition hr) fun test => ?_
  refine .skip .eatMark fun _ => ?_
  exact .finish fun _ htest hbody => .node rfl (by simp [hbody, htest])

/-! ### Branches -/

/-- The second branch may be absent, which fits. -/
theorem gives_ifStatement (hr : r.Sound) : Gives ctx ctx.Holds (ifStatement r) := by
  unfold ifStatement
  refine .skip .here fun start => .skip .advance fun _ => ?_
  refine .bind (gives_condition hr) fun test => .bind (hr.statement ctx) fun yes => ?_
  refine .skip .eatWord fun _ => ?_
  extract_lets node
  have hnode (no : Tree) :
      Gives ctx (fun t => ctx.Holds no → ctx.Holds yes → ctx.Holds test → ctx.Holds t) (node no) :=
    .finish fun _ hno hyes htest => .node rfl (by simp [htest, hyes, hno])
  refine .ite (fun _ => ?_) fun _ => ?_
  · exact .bind (hr.statement ctx) hnode
  · exact .bind (.pure .absent) hnode

/-- The test of a case is absent in a default. -/
theorem gives_switchCase (hr : r.Sound) : Gives ctx ctx.Holds (switchCase r) := by
  unfold switchCase
  refine .skip .here fun start => .skip .eatWord fun _ => ?_
  extract_lets more node
  have hmore : Quiet more := by
    refine Quiet.atWord.bind fun _ => Quiet.atWord.bind fun _ => ?_
    exact Quiet.atMark.bind fun _ => Quiet.atEnd.bind fun _ => .pure _
  have hnode (test : Tree) : Gives ctx (fun t => ctx.Holds test → ctx.Holds t) (node test) := by
    refine .skip .expectMark fun _ => .bind (.repeatWhile hmore (hr.statement ctx)) fun items => ?_
    exact .finish fun _ hitems htest => .node rfl (Context.holdsAll_cons.2 ⟨htest, hitems⟩)
  refine .ite (fun _ => ?_) fun _ => ?_
  · exact .bind (.pure .absent) hnode
  · exact .skip .expectWord fun _ => .bind (gives_fullExpression hr) hnode

theorem gives_switchStatement (hr : r.Sound) : Gives ctx ctx.Holds (switchStatement r) := by
  unfold switchStatement
  refine .skip .here fun start => .skip .advance fun _ => .bind (gives_condition hr) fun value => ?_
  refine .skip .expectMark fun _ => .bind (.repeatWhile .untilBrace (gives_switchCase hr)) ?_
  refine fun cases => .skip .expectMark fun _ => .finish fun _ hcases hvalue => ?_
  exact .node rfl (Context.holdsAll_cons.2 ⟨hvalue, hcases⟩)

/-- The blocks of a `try` and the parameter of its handler are read where it stands. -/
theorem gives_tryStatement (hr : r.Sound) : Gives ctx ctx.Holds (tryStatement r) := by
  unfold tryStatement
  refine .skip .here fun start => .skip .advance fun _ => .bind (gives_block hr) fun body => ?_
  refine .skip .here fun handlerStart => .skip .eatWord fun _ => ?_
  extract_lets handled caught
  have hhandled (handler : Tree) :
      Gives ctx (fun t => ctx.Holds handler → ctx.Holds body → ctx.Holds t) (handled handler) := by
    refine .skip .eatWord fun _ => ?_
    extract_lets ended
    have hended (finalizer : Tree) :
        Gives ctx (fun t => ctx.Holds finalizer → ctx.Holds handler → ctx.Holds body → ctx.Holds t)
          (ended finalizer) := by
      have hnode : Gives ctx
          (fun t => ctx.Holds finalizer → ctx.Holds handler → ctx.Holds body → ctx.Holds t)
          (finish start .tryCatch [body, handler, finalizer]) :=
        .finish fun _ hfinalizer hhandler hbody =>
          .node rfl (by simp [hbody, hhandler, hfinalizer])
      exact .ite (fun _ => .skip .failExpected fun _ => hnode) fun _ => hnode
    refine .ite (fun _ => ?_) fun _ => ?_
    · exact .bind (gives_block hr) hended
    · exact .bind (.pure .absent) hended
  refine .ite (fun _ => .skip .eatMark fun _ => ?_) fun _ => .bind (.pure .absent) hhandled
  have hcaught (param : Tree) :
      Gives ctx (fun t => ctx.Holds param → ctx.Holds body → ctx.Holds t) (caught param) := by
    refine .bind (gives_block hr) fun inside => ?_
    refine .bind (.finish (Q := fun handler => ctx.Holds inside → ctx.Holds param →
      ctx.Holds handler) fun _ hinside hparam => .node rfl (by simp [hparam, hinside])) ?_
    exact fun handler => (hhandled handler).mono fun t ht hhandler hinside hparam =>
      ht (hhandler hinside hparam)
  refine .ite (fun _ => ?_) fun _ => .bind (.pure .absent) hcaught
  refine .skip .here fun place => .bind (hr.pattern ctx) fun first => ?_
  refine .bind (gives_annotated hr place first) fun pattern => .skip .expectMark fun _ => ?_
  refine .bind (.pure (Q := (· = pattern)) rfl) fun param => ?_
  exact (hcaught param).mono fun t ht heq hpattern hfirst => ht (heq ▸ hpattern hfirst)

/-! ### Jumps -/

theorem Quiet.atStatementEnd : Quiet atStatementEnd := Quiet.current.bind fun _ => .pure _

/-- A `return` outside of functions is complained about. -/
theorem gives_returnStatement (hr : r.Sound) : Gives ctx ctx.Holds (returnStatement r) := by
  unfold returnStatement
  refine .skip .here fun start => .read ?_
  extract_lets node returned
  have hnode (value : Tree) : Gives ctx (fun t => ctx.Holds value → ctx.Holds t) (node value) :=
    .skip .endStatement fun _ => .finish fun _ hvalue => .node rfl (by simp [hvalue])
  have hreturned (u : Unit) : Gives ctx ctx.Holds (returned u) := by
    refine .skip .advance fun _ => .skip .atStatementEnd fun _ => ?_
    refine .ite (fun _ => ?_) fun _ => ?_
    · exact .bind (.pure .absent) hnode
    · exact .bind (gives_fullExpression hr) hnode
  exact .ite (fun _ => hreturned ()) fun _ => .skip (fun _ => .complain) hreturned

theorem gives_throwStatement (hr : r.Sound) : Gives ctx ctx.Holds (throwStatement r) := by
  unfold throwStatement
  refine .skip .here fun start => .skip .advance fun _ => ?_
  refine .bind (gives_fullExpression hr) fun value => .skip .endStatement fun _ => ?_
  exact .finish fun _ hvalue => .node rfl (by simp [hvalue])

/-- A jump is a leaf; its label is kept in the node. -/
theorem gives_jumpStatement {kind : Option String → Kind} (hk : ∀ label, (kind label).isPlain) :
    Gives ctx ctx.Holds (jumpStatement kind) := by
  unfold jumpStatement
  refine .skip .here fun start => .skip .advance fun _ => .skip .atStatementEnd fun _ => ?_
  extract_lets node
  have hnode (label : Option String) : Gives ctx ctx.Holds (node label) :=
    .skip .endStatement fun _ => .leaf (hk label)
  refine .ite (fun _ => ?_) fun _ => ?_
  · exact .skip (.pure none) hnode
  · exact .skip (.map some .variableName) hnode

/-! ### All statements -/

theorem gives_expressionStatement (hr : r.Sound) : Gives ctx ctx.Holds (expressionStatement r) := by
  unfold expressionStatement
  refine .skip .here fun start => .bind (gives_fullExpression hr) fun value => ?_
  exact .skip .endStatement fun _ => .finish fun _ hvalue => .node rfl (by simp [hvalue])

/-- A statement that begins with a word is read by the rule of the word, or else is a label or an
expression. -/
theorem gives_wordStatement (hr : r.Sound) (name : String) :
    Gives ctx ctx.Holds (wordStatement r name) := by
  unfold wordStatement
  refine .skip .here fun start => ?_
  split
  · exact gives_functionExpression hr true false
  · exact gives_classFrom hr true false
  · exact gives_ifStatement hr
  · exact gives_forStatement hr
  · exact gives_whileStatement hr
  · exact gives_doStatement hr
  · exact gives_switchStatement hr
  · exact gives_tryStatement hr
  · exact gives_returnStatement hr
  · exact gives_throwStatement hr
  · exact gives_jumpStatement fun _ => rfl
  · exact gives_jumpStatement fun _ => rfl
  · exact .skip .advance fun _ => .skip .endStatement fun _ => .leaf rfl
  · refine .skip .advance fun _ => .bind (gives_condition hr) fun object => ?_
    refine .bind (hr.statement ctx) fun body => ?_
    exact .finish fun _ hbody hobject => .node rfl (by simp [hobject, hbody])
  · refine .skip .next fun t => .ite (fun _ => gives_functionExpression hr true false) fun _ => ?_
    refine .read (.ite (fun _ => ?_) fun _ => gives_expressionStatement hr)
    refine .skip .advance fun _ => .skip .advance fun _ => .bind (hr.statement ctx) fun body => ?_
    exact .finish fun _ hbody => .node rfl (by simp [hbody])

theorem gives_statementRule (hr : r.Sound) : Gives ctx ctx.Holds (statementRule r) := by
  unfold statementRule
  refine .skip .variableKind? fun kind => ?_
  split
  · exact gives_variableList hr _
  · refine .skip .current fun t => ?_
    split
    · exact gives_block hr
    · exact .skip .advance fun _ => .leaf rfl
    · exact gives_wordStatement hr _
    · exact gives_expressionStatement hr

/-! ### All rules -/

/-- If the rules at a depth give trees that fit, so do those one level above that are made of them.
-/
theorem sound_deepen (hr : r.Sound) : (deepen r).Sound where
  assignment _ := gives_assignmentRule hr
  operandAbove level _ := gives_operandAboveRule hr level
  unary _ := gives_unaryRule hr
  newCallee _ := gives_newCalleeRule hr
  callChain _ := gives_callChainRule hr
  pattern _ := gives_patternRule hr
  statement _ := gives_statementRule hr
  type _ := gives_typeRule hr

/-- The rules at every depth give trees that fit where they stand. -/
theorem sound_rules (depth : Nat) : (rules depth).Sound := by
  induction depth with
  | zero =>
    have hdeep (ctx : Context) :
        Gives ctx ctx.Holds (do failAt .nestingTooDeep (← here)) := .skip .here fun _ => .fail
    exact ⟨hdeep, fun _ => hdeep, hdeep, hdeep, hdeep, hdeep, hdeep, hdeep⟩
  | succ depth ih => exact sound_deepen ih

end CallBridge.Script.Parser
