import CallBridge.Proofs.Script.Shape.Expressions
import CallBridge.Script.Parser.Statement

/-!
# Shapes of statements

Every rule for statements returns trees that are well shaped, and lines, so all rules do at every
depth (`shaped_rules`).
-/

namespace CallBridge.Script.Parser

variable {r : Rules}

/-- A block has lines for children, and its kind says that it is one. -/
theorem returns_block (hr : r.Shaped) : Returns (ShapedAs (· == .block)) (block r) := by
  unfold block
  refine .skip fun start => .skip fun _ => ?_
  refine .bind (returns_statementsUntilBrace hr) fun items hitems => .skip fun _ => ?_
  refine .finish fun _ => ⟨?_, rfl⟩
  exact .node rfl (all_of_shapedAs hitems) (wellShaped_of_shapedAs hitems)

/-- The parentheses around a condition leave no node. -/
theorem returns_condition (hr : r.Shaped) : Returns WellShaped (condition r) := by
  unfold condition
  refine .skip fun _ => .bind (returns_fullExpression hr) fun test htest => ?_
  exact .skip fun _ => .pure htest

/-! ### Declarations of variables -/

/-- A declarator has a pattern, which may have a type, and a value, which may be absent. -/
theorem returns_declarator (hr : r.Shaped) (kind : VariableKind) (needsValue : Bool) :
    Returns WellShaped (declarator r kind needsValue) := by
  unfold declarator
  refine .skip fun start => .bind hr.pattern fun first hfirst => ?_
  refine .bind (returns_annotated hr start hfirst) fun pattern hpattern => .skip fun _ => ?_
  refine .ite (fun _ => ?_) fun _ => ?_
  · refine .bind hr.assignment fun value hvalue => ?_
    exact .finish fun _ => .node rfl rfl (forall_mem_pair.2 ⟨hpattern, hvalue⟩)
  extract_lets node
  have hnode (u : Unit) : Returns WellShaped (node u) :=
    .finish fun _ => .node rfl rfl (forall_mem_pair.2 ⟨hpattern, wellShaped_absent⟩)
  refine .ite (fun _ => ?_) fun _ => hnode ()
  split
  · exact .skip hnode
  · exact .skip hnode
  · exact .ite (fun _ => .skip hnode) fun _ => hnode ()

theorem returns_declarators (hr : r.Shaped) (kind : VariableKind) (needsValue : Bool) :
    Returns (fun ts => ∀ t ∈ ts, WellShaped t) (declarators r kind needsValue) := by
  unfold declarators
  refine .bind (returns_declarator hr kind needsValue) fun first hfirst => .map ?_
  refine (Returns.repeatWhile (returns_declarator hr kind needsValue)).mono fun more hmore => ?_
  exact List.forall_mem_cons.2 ⟨hfirst, hmore⟩

/-- A declaration of variables is a line with any number of declarators. -/
theorem returns_variableList (hr : r.Shaped) (kind : VariableKind) :
    Returns (ShapedAs Kind.isLine) (variableList r kind) := by
  unfold variableList
  refine .skip fun start => .skip fun _ => ?_
  refine .bind (returns_declarators hr kind true) fun items hitems => .skip fun _ => ?_
  exact .finish fun _ => ⟨.node rfl rfl hitems, rfl⟩

/-! ### Loops -/

/-- The trees in front of the first separator of a `for` are well shaped. -/
def ForHead.Shaped : ForHead → Prop
  | .nothing => True
  | .declared _ _ items => ∀ t ∈ items, WellShaped t
  | .expression t => WellShaped t

/-- What stands in front of the first separator is kept as it is read, since only the separator
tells which loop it is. -/
theorem returns_forHead (hr : r.Shaped) : Returns ForHead.Shaped (forHead r) := by
  unfold forHead
  refine .skip fun start => .skip fun _ => .ite (fun _ => .pure trivial) fun _ => ?_
  refine .skip fun kind => ?_
  split
  · refine .skip fun _ => .bind (.within (returns_declarators hr _ false)) fun items hitems => ?_
    exact .pure hitems
  · exact .map (.within (returns_expression hr))

/-- A loop over a value has a target, the value and a line, whichever word is in between. -/
theorem returns_forEach (hr : r.Shaped) (start : Nat) {kind : Kind}
    (hk : kind = .forIn ∨ ∃ isAwait, kind = .forOf isAwait) {left : Tree}
    (hleft : WellShaped left) :
    Returns (ShapedAs Kind.isLine) (forEach r start kind left) := by
  unfold forEach
  refine .skip fun _ => ?_
  extract_lets node
  have hnode (object : Tree) (hobject : WellShaped object) :
      Returns (ShapedAs Kind.isLine) (node object) := by
    refine .skip fun _ => .bind hr.statement fun body hbody => .finish fun _ => ?_
    have hall : ∀ t ∈ [left, object, body], WellShaped t :=
      List.forall_mem_cons.2 ⟨hleft, forall_mem_pair.2 ⟨hobject, hbody.1⟩⟩
    rcases hk with rfl | ⟨isAwait, rfl⟩
    · exact ⟨.node rfl hbody.2 hall, rfl⟩
    · exact ⟨.node rfl hbody.2 hall, rfl⟩
  refine .ite (fun _ => ?_) fun _ => ?_
  · exact .bind (returns_fullExpression hr) hnode
  · exact .bind (returns_fullAssignment hr) hnode

/-- The beginning of a counting loop may be absent. -/
theorem returns_forInit {head : ForHead} (hhead : head.Shaped) :
    Returns WellShaped (forInit head) := by
  unfold forInit
  split
  · exact .pure wellShaped_absent
  · exact .pure hhead
  · exact .skip fun _ => .finish fun _ => .node rfl rfl hhead

/-- Every loop with `for` is a line with a line inside. A counting loop has four parts, of which the
first three may be absent. -/
theorem returns_forStatement (hr : r.Shaped) :
    Returns (ShapedAs Kind.isLine) (forStatement r) := by
  unfold forStatement
  refine .skip fun start => .skip fun _ => .skip fun isAwait => .skip fun _ => ?_
  refine .bind (returns_forHead hr) fun head hhead => ?_
  extract_lets left
  have hleft : Returns WellShaped (left head) := by
    cases head with
    | nothing => exact .unexpected
    | declared kind s items => exact .finish fun _ => .node rfl rfl hhead
    | expression t => exact returns_assignable hhead
  refine .skip fun _ => .ite (fun _ => ?_) fun _ => .skip fun _ => .ite (fun _ => ?_) fun _ => ?_
  · exact .bind hleft fun target htarget => returns_forEach hr start (.inr ⟨_, rfl⟩) htarget
  · exact .bind hleft fun target htarget => returns_forEach hr start (.inl rfl) htarget
  refine .bind (returns_forInit hhead) fun init hinit => .skip fun _ => .skip fun _ => ?_
  extract_lets tested
  have htested (test : Tree) (htest : WellShaped test) :
      Returns (ShapedAs Kind.isLine) (tested test) := by
    refine .skip fun _ => .skip fun _ => ?_
    extract_lets updated
    have hupdated (update : Tree) (hupdate : WellShaped update) :
        Returns (ShapedAs Kind.isLine) (updated update) := by
      refine .skip fun _ => .bind hr.statement fun body hbody => .finish fun _ => ⟨?_, rfl⟩
      refine .node rfl hbody.2 (List.forall_mem_cons.2 ⟨hinit, ?_⟩)
      exact List.forall_mem_cons.2 ⟨htest, forall_mem_pair.2 ⟨hupdate, hbody.1⟩⟩
    refine .ite (fun _ => ?_) fun _ => ?_
    · exact .bind (.pure wellShaped_absent) hupdated
    · exact .bind (returns_fullExpression hr) hupdated
  refine .ite (fun _ => ?_) fun _ => ?_
  · exact .bind (.pure wellShaped_absent) htested
  · exact .bind (returns_fullExpression hr) htested

/-- The body of the loop is a line, as it is printed behind the condition. -/
theorem returns_whileStatement (hr : r.Shaped) :
    Returns (ShapedAs Kind.isLine) (whileStatement r) := by
  unfold whileStatement
  refine .skip fun start => .skip fun _ => .bind (returns_condition hr) fun test htest => ?_
  refine .bind hr.statement fun body hbody => .finish fun _ => ⟨?_, rfl⟩
  exact .node rfl hbody.2 (forall_mem_pair.2 ⟨htest, hbody.1⟩)

/-- The body of this loop is printed in front of its condition and need not be a line. -/
theorem returns_doStatement (hr : r.Shaped) :
    Returns (ShapedAs Kind.isLine) (doStatement r) := by
  unfold doStatement
  refine .skip fun start => .skip fun _ => .bind hr.statement fun body hbody => .skip fun _ => ?_
  refine .bind (returns_condition hr) fun test htest => .skip fun _ => .finish fun _ => ⟨?_, rfl⟩
  exact .node rfl rfl (forall_mem_pair.2 ⟨hbody.1, htest⟩)

/-! ### Branches -/

/-- Both branches are lines, and the second one may be absent. -/
theorem returns_ifStatement (hr : r.Shaped) : Returns (ShapedAs Kind.isLine) (ifStatement r) := by
  unfold ifStatement
  refine .skip fun start => .skip fun _ => .bind (returns_condition hr) fun test htest => ?_
  refine .bind hr.statement fun yes hyes => .skip fun _ => ?_
  extract_lets node
  have hnode (no : Tree) (hno : ShapedAs (fun k => k == .absent || k.isLine) no) :
      Returns (ShapedAs Kind.isLine) (node no) := by
    refine .finish fun _ => ⟨.node rfl ?_ ?_, rfl⟩
    · exact Bool.and_eq_true_iff.2 ⟨hyes.2, hno.2⟩
    · exact List.forall_mem_cons.2 ⟨htest, forall_mem_pair.2 ⟨hyes.1, hno.1⟩⟩
  refine .ite (fun _ => ?_) fun _ => ?_
  · refine .bind hr.statement fun no hno => hnode no ⟨hno.1, ?_⟩
    exact Bool.or_eq_true_iff.2 (.inr hno.2)
  · exact .bind (.pure ⟨wellShaped_absent, rfl⟩) hnode

/-- A case has its test, absent in a default, and lines behind it. -/
theorem returns_switchCase (hr : r.Shaped) : Returns (ShapedAs Kind.isLine) (switchCase r) := by
  unfold switchCase
  refine .skip fun start => .skip fun _ => ?_
  extract_lets more node
  have hnode (test : Tree) (htest : WellShaped test) :
      Returns (ShapedAs Kind.isLine) (node test) := by
    refine .skip fun _ => .bind (.repeatWhile hr.statement) fun items hitems => ?_
    refine .finish fun _ => ⟨.node (counts_cons (fun _ => rfl) ..) ?_ ?_, rfl⟩
    · exact all_of_shapedAs hitems
    · exact List.forall_mem_cons.2 ⟨htest, wellShaped_of_shapedAs hitems⟩
  refine .ite (fun _ => ?_) fun _ => ?_
  · exact .bind (.pure wellShaped_absent) hnode
  · exact .skip fun _ => .bind (returns_fullExpression hr) hnode

theorem returns_switchStatement (hr : r.Shaped) :
    Returns (ShapedAs Kind.isLine) (switchStatement r) := by
  unfold switchStatement
  refine .skip fun start => .skip fun _ => .bind (returns_condition hr) fun value hvalue => ?_
  refine .skip fun _ => .bind (.repeatWhile (returns_switchCase hr)) fun cases hcases => ?_
  refine .skip fun _ => .finish fun _ => ⟨?_, rfl⟩
  exact .node (counts_cons (fun _ => rfl) ..) (all_of_shapedAs hcases)
    (List.forall_mem_cons.2 ⟨hvalue, wellShaped_of_shapedAs hcases⟩)

/-- A `try` has a block, and it may have a handler and a block behind it; the parameter of the
handler may be absent. -/
theorem returns_tryStatement (hr : r.Shaped) :
    Returns (ShapedAs Kind.isLine) (tryStatement r) := by
  unfold tryStatement
  refine .skip fun start => .skip fun _ => .bind (returns_block hr) fun body hbody => ?_
  refine .skip fun handlerStart => .skip fun _ => ?_
  extract_lets handled caught
  have hhandled (handler : Tree) (hhandler : WellShaped handler) :
      Returns (ShapedAs Kind.isLine) (handled handler) := by
    refine .skip fun _ => ?_
    extract_lets ended
    have hended (finalizer : Tree) (hfinalizer : WellShaped finalizer) :
        Returns (ShapedAs Kind.isLine) (ended finalizer) := by
      have hnode :
          Returns (ShapedAs Kind.isLine) (finish start .tryCatch [body, handler, finalizer]) := by
        refine .finish fun _ => ⟨.node rfl hbody.2 ?_, rfl⟩
        exact List.forall_mem_cons.2 ⟨hbody.1, forall_mem_pair.2 ⟨hhandler, hfinalizer⟩⟩
      exact .ite (fun _ => .skip fun _ => hnode) fun _ => hnode
    refine .ite (fun _ => ?_) fun _ => ?_
    · exact .bind ((returns_block hr).mono fun _ ht => ht.1) hended
    · exact .bind (.pure wellShaped_absent) hended
  refine .ite (fun _ => .skip fun _ => ?_) fun _ => .bind (.pure wellShaped_absent) hhandled
  have hcaught (param : Tree) (hparam : WellShaped param) :
      Returns (ShapedAs Kind.isLine) (caught param) := by
    refine .bind (returns_block hr) fun inside hinside => ?_
    refine .bind (.finish (Q := WellShaped) fun _ => ?_) hhandled
    exact .node rfl rfl (forall_mem_pair.2 ⟨hparam, hinside.1⟩)
  refine .ite (fun _ => ?_) fun _ => .bind (.pure wellShaped_absent) hcaught
  refine .skip fun place => .bind hr.pattern fun first hfirst => ?_
  refine .bind (returns_annotated hr place hfirst) fun pattern hpattern => .skip fun _ => ?_
  exact .bind (.pure hpattern) hcaught

/-! ### Jumps -/

/-- A value to be returned may be absent, but its place is there. -/
theorem returns_returnStatement (hr : r.Shaped) :
    Returns (ShapedAs Kind.isLine) (returnStatement r) := by
  unfold returnStatement
  refine .skip fun start => .skip fun ctx => ?_
  extract_lets node returned
  have hnode (value : Tree) (hvalue : WellShaped value) :
      Returns (ShapedAs Kind.isLine) (node value) :=
    .skip fun _ => .finish fun _ => ⟨.node rfl rfl (List.forall_mem_singleton.2 hvalue), rfl⟩
  have hreturned (u : Unit) : Returns (ShapedAs Kind.isLine) (returned u) := by
    refine .skip fun _ => .skip fun _ => .ite (fun _ => ?_) fun _ => ?_
    · exact .bind (.pure wellShaped_absent) hnode
    · exact .bind (returns_fullExpression hr) hnode
  exact .ite (fun _ => hreturned ()) fun _ => .skip hreturned

theorem returns_throwStatement (hr : r.Shaped) :
    Returns (ShapedAs Kind.isLine) (throwStatement r) := by
  unfold throwStatement
  refine .skip fun start => .skip fun _ => .bind (returns_fullExpression hr) fun value hvalue => ?_
  refine .skip fun _ => .finish fun _ => ⟨?_, rfl⟩
  exact .node rfl rfl (List.forall_mem_singleton.2 hvalue)

/-- The label of a jump is kept in its node. -/
theorem returns_jumpStatement {kind : Option String → Kind}
    (hk : ∀ label, (kind label).isLeaf ∧ (kind label).isLine) :
    Returns (ShapedAs Kind.isLine) (jumpStatement kind) := by
  unfold jumpStatement
  refine .skip fun start => .skip fun _ => .skip fun _ => ?_
  extract_lets node
  have hnode (label : Option String) : Returns (ShapedAs Kind.isLine) (node label) :=
    .skip fun _ => .finish fun _ => ⟨.leaf (hk label).1, (hk label).2⟩
  refine .ite (fun _ => ?_) fun _ => ?_
  · exact .skip hnode
  · exact .skip hnode

/-! ### All statements -/

theorem returns_expressionStatement (hr : r.Shaped) :
    Returns (ShapedAs Kind.isLine) (expressionStatement r) := by
  unfold expressionStatement
  refine .skip fun start => .bind (returns_fullExpression hr) fun value hvalue => ?_
  refine .skip fun _ => .finish fun _ => ⟨?_, rfl⟩
  exact .node rfl rfl (List.forall_mem_singleton.2 hvalue)

/-- A statement that begins with a word: the word tells the rule, and a word that tells none is a
label or begins an expression. -/
theorem returns_wordStatement (hr : r.Shaped) (name : String) :
    Returns (ShapedAs Kind.isLine) (wordStatement r name) := by
  unfold wordStatement
  refine .skip fun start => ?_
  split
  · exact returns_functionExpression hr true false
  · exact returns_classFrom hr true false
  · exact returns_ifStatement hr
  · exact returns_forStatement hr
  · exact returns_whileStatement hr
  · exact returns_doStatement hr
  · exact returns_switchStatement hr
  · exact returns_tryStatement hr
  · exact returns_returnStatement hr
  · exact returns_throwStatement hr
  · exact returns_jumpStatement fun _ => ⟨rfl, rfl⟩
  · exact returns_jumpStatement fun _ => ⟨rfl, rfl⟩
  · exact .skip fun _ => .skip fun _ => .finish fun _ => ⟨.leaf rfl, rfl⟩
  · refine .skip fun _ => .bind (returns_condition hr) fun object hobject => ?_
    refine .bind hr.statement fun body hbody => .finish fun _ => ⟨?_, rfl⟩
    exact .node rfl hbody.2 (forall_mem_pair.2 ⟨hobject, hbody.1⟩)
  · refine .skip fun t => .ite (fun _ => returns_functionExpression hr true false) fun _ => ?_
    refine .skip fun _ => .ite (fun _ => ?_) fun _ => returns_expressionStatement hr
    refine .skip fun _ => .skip fun _ => .bind hr.statement fun body hbody => ?_
    exact .finish fun _ => ⟨.node rfl hbody.2 (List.forall_mem_singleton.2 hbody.1), rfl⟩

/-- Every statement is a line. -/
theorem returns_statementRule (hr : r.Shaped) :
    Returns (ShapedAs Kind.isLine) (statementRule r) := by
  unfold statementRule
  refine .skip fun kind => ?_
  split
  · exact returns_variableList hr _
  · refine .skip fun t => ?_
    split
    · refine (returns_block hr).mono fun b hb => ⟨hb.1, ?_⟩
      rw [beq_iff_eq.1 hb.2]
      rfl
    · exact .skip fun _ => .finish fun _ => ⟨.leaf rfl, rfl⟩
    · exact returns_wordStatement hr _
    · exact returns_expressionStatement hr

/-! ### All rules -/

/-- If the rules at a depth return well-shaped trees, so do those one level above that are made of
them. -/
theorem shaped_deepen (hr : r.Shaped) : (deepen r).Shaped where
  assignment := returns_assignmentRule hr
  operandAbove := returns_operandAboveRule hr
  unary := returns_unaryRule hr
  newCallee := returns_newCalleeRule hr
  callChain := returns_callChainRule hr
  pattern := returns_patternRule hr
  statement := returns_statementRule hr
  type := returns_typeRule hr

/-- The rules at every depth return trees that are well shaped. -/
theorem shaped_rules (depth : Nat) : (rules depth).Shaped := by
  induction depth with
  | zero =>
    have hdeep {Q : Tree → Prop} : Returns Q (do failAt .nestingTooDeep (← here)) :=
      .skip fun _ => .fail
    exact ⟨hdeep, fun _ => hdeep, hdeep, hdeep, hdeep, hdeep, hdeep, hdeep⟩
  | succ depth ih => exact shaped_deepen ih

end CallBridge.Script.Parser
