import CallBridge.Proofs.Script.Shape.Functions
import CallBridge.Script.Parser.Expression

/-!
# Shapes of expressions

Every rule for expressions returns trees that are well shaped. A template has one piece more than
substitutions (`returns_template`), and the key of a shorthand is the word that is its value
(`returns_objectItem`).
-/

namespace CallBridge.Script.Parser

variable {r : Rules}

/-- A sequence may have any number of parts, so it is enough that each of them is well shaped. -/
theorem returns_expression (hr : r.Shaped) : Returns WellShaped (expression r) := by
  unfold expression
  refine .skip fun start => .bind hr.assignment fun first hfirst => .skip fun _ => ?_
  refine .ite (fun _ => ?_) fun _ => .pure hfirst
  refine .bind (.repeatWhile hr.assignment) fun more hmore => ?_
  exact .finish fun _ => .node rfl rfl (List.forall_mem_cons.2 ⟨hfirst, hmore⟩)

/-- Whether `in` is an operator changes what is read, not how it is shaped. -/
theorem returns_fullExpression (hr : r.Shaped) : Returns WellShaped (fullExpression r) :=
  .within (returns_expression hr)

theorem returns_fullAssignment (hr : r.Shaped) : Returns WellShaped (fullAssignment r) :=
  .within hr.assignment

/-- A spread has the one expression behind its points. -/
theorem returns_spreadable (hr : r.Shaped) : Returns WellShaped (spreadable r) := by
  unfold spreadable
  refine .skip fun _ => .ite (fun _ => ?_) fun _ => returns_fullAssignment hr
  refine .skip fun start => .skip fun _ => .bind (returns_fullAssignment hr) fun value hvalue => ?_
  exact .finish fun _ => .node rfl rfl (List.forall_mem_singleton.2 hvalue)

theorem returns_callArguments (hr : r.Shaped) :
    Returns (fun ts => ∀ t ∈ ts, WellShaped t) (callArguments r) := by
  unfold callArguments
  refine .bind (.delimited (returns_spreadable hr)) fun items hitems => ?_
  exact .skip fun _ => .pure hitems

/-! ### Literals -/

/-- A template has one piece of text more than it has substitutions: the loop reads a substitution
and a piece at a time, behind a first piece. -/
theorem returns_template (hr : r.Shaped) (isTagged : Bool) :
    Returns (ShapedAs Kind.isTemplate) (template r isTagged) := by
  unfold template
  refine .skip fun start => ?_
  extract_lets piece grow
  refine .skip fun (head, closed) => ?_
  -- the pieces read so far are one more than the substitutions
  have hgrow (acc : List Quasi × List Tree × Bool)
      (hacc : acc.1.length = acc.2.1.length + 1 ∧ ∀ t ∈ acc.2.1, WellShaped t) :
      Returns (fun grown => ∀ next ∈ grown,
        next.1.length = next.2.1.length + 1 ∧ ∀ t ∈ next.2.1, WellShaped t) (grow acc) := by
    obtain ⟨quasis, values, closed⟩ := acc
    refine .ite (fun _ => .pure fun _ h => nomatch h) fun _ => ?_
    refine .bind (returns_fullExpression hr) fun value hvalue => .skip fun (q, closed) => ?_
    refine .pure ?_
    rintro _ ⟨⟩
    exact ⟨congrArg Nat.succ hacc.1, List.forall_mem_cons.2 ⟨hvalue, hacc.2⟩⟩
  refine .bind (.growWhile hgrow ⟨rfl, nofun⟩) fun (quasis, values, closed) hacc => ?_
  refine .finish fun _ => ⟨.node ?_ rfl fun t ht => hacc.2 t (List.mem_reverse.1 ht), rfl⟩
  have hlength : values.reverse.length + 1 = quasis.reverse.length := by simp [hacc.1]
  exact beq_iff_eq.2 hlength

/-- An item that is left out is a hole, which has no children. -/
theorem returns_arrayItem (hr : r.Shaped) : Returns WellShaped (arrayItem r) := by
  unfold arrayItem
  refine .skip fun _ => .skip fun _ => .ite (fun _ => .pure (.leaf rfl)) fun _ => ?_
  exact returns_spreadable hr

theorem returns_arrayLiteral (hr : r.Shaped) : Returns WellShaped (arrayLiteral r) := by
  unfold arrayLiteral
  refine .skip fun start => .skip fun _ => ?_
  refine .bind (.delimited (returns_arrayItem hr)) fun items hitems => .skip fun _ => ?_
  exact .finish fun _ => .node rfl rfl hitems

/-- The items of an object literal. What looks like a method has a function for its value, and a
shorthand stands under the word that it is, so its key is a leaf. -/
theorem returns_objectItem (hr : r.Shaped) : Returns WellShaped (objectItem r) := by
  unfold objectItem
  refine .skip fun _ => .ite (fun _ => returns_spreadable hr) fun _ => ?_
  refine .skip fun start => .skip fun m => .current fun t => ?_
  refine .bind (returnsAt_propertyKey hr t) fun (key, computed) ⟨hkey, hword⟩ => ?_
  refine .skip fun _ => .ite (fun _ => ?_) fun _ => .skip fun _ => .ite (fun _ => ?_) fun _ => ?_
  · refine .bind (returns_methodRest hr m.isAsync m.isGenerator) fun value hvalue => ?_
    refine .finish fun _ => .node rfl ?_ (forall_mem_pair.2 ⟨hkey, hvalue.1⟩)
    have hform : propertyForm m.form != .shorthand := by cases m.form <;> rfl
    simp [Kind.places_property, hform, hvalue.2]
  · refine .bind (returns_fullAssignment hr) fun value hvalue => ?_
    exact .finish fun _ => .node rfl rfl (forall_mem_pair.2 ⟨hkey, hvalue⟩)
  split
  · next name escaped ht =>
    refine .skip fun _ => .ite (fun _ => .skip fun _ => ?_) fun _ => .failExpected
    refine .ite (fun _ => ?_) fun _ => ?_
    · refine .bind (returns_fullAssignment hr) fun value hvalue => ?_
      exact .finish fun _ => .node rfl rfl (forall_mem_pair.2 ⟨hkey, hvalue⟩)
    · refine .finish fun _ => .node rfl ?_ (forall_mem_pair.2 ⟨hkey, .leaf rfl⟩)
      simp [Kind.places_property, Kind.isMethodForm, hword name escaped ht]
  · exact .failExpected

theorem returns_objectLiteral (hr : r.Shaped) : Returns WellShaped (objectLiteral r) := by
  unfold objectLiteral
  refine .skip fun start => .skip fun _ => ?_
  refine .bind (.delimited (returns_objectItem hr)) fun items hitems => .skip fun _ => ?_
  exact .finish fun _ => .node rfl rfl hitems

/-! ### Primary expressions -/

theorem returns_classExpression (hr : r.Shaped) : Returns WellShaped (classExpression r) :=
  (returns_classFrom hr false true).mono fun _ ht => ht.1

/-- An import has its source and at most one more argument; `import.meta` is a leaf. -/
theorem returns_importExpression (hr : r.Shaped) : Returns WellShaped (importExpression r) := by
  unfold importExpression
  refine .skip fun start => .skip fun _ => .skip fun _ => ?_
  refine .ite (fun _ => .skip fun name => ?_) fun _ => .skip fun _ => ?_
  · extract_lets node
    have hnode (u : Unit) : Returns WellShaped (node u) := .leaf rfl
    exact .ite (fun _ => .skip hnode) fun _ => hnode ()
  · refine .bind (returns_fullAssignment hr) fun source hsource => .skip fun _ => .skip fun _ => ?_
    extract_lets node
    have hnode (options : List Tree) (h : ∀ t ∈ options, WellShaped t) :
        Returns WellShaped (node options) :=
      .skip fun _ => .finish fun _ => .node rfl rfl (List.forall_mem_cons.2 ⟨hsource, h⟩)
    refine .ite (fun _ => ?_) fun _ => .bind (.pure nofun) hnode
    refine .bind (returns_fullAssignment hr) fun options hoptions => .skip fun _ => ?_
    exact .bind (.pure (List.forall_mem_singleton.2 hoptions)) hnode

theorem returns_parenthesized (hr : r.Shaped) : Returns WellShaped (parenthesized r) := by
  unfold parenthesized
  refine .skip fun start => .skip fun _ => ?_
  refine .bind (returns_fullExpression hr) fun inside hinside => .skip fun _ => ?_
  exact .finish fun _ => .node rfl rfl (List.forall_mem_singleton.2 hinside)

/-- A word is a leaf, unless it begins a function, a class or an import. -/
theorem returns_wordExpression (hr : r.Shaped) (name : String) (escaped : Bool) :
    Returns WellShaped (wordExpression r name escaped) := by
  unfold wordExpression
  refine .skip fun start => ?_
  extract_lets leaf named
  have hleaf {k : Kind} (hk : k.isLeaf) : Returns WellShaped (leaf k) := .skip fun _ => .leaf hk
  have hnamed : Returns WellShaped named :=
    .skip fun _ => .ite (fun _ => hleaf rfl) fun _ => .unexpected
  have hfunction : Returns WellShaped (functionExpression r false true) :=
    (returns_functionExpression hr false true).mono fun _ ht => ht.1
  refine .ite (fun _ => hnamed) fun _ => ?_
  split
  · exact hleaf rfl
  · exact hleaf rfl
  · exact hleaf rfl
  · exact hleaf rfl
  · exact hleaf rfl
  · exact hfunction
  · exact returns_classExpression hr
  · exact returns_importExpression hr
  · exact .skip fun t => .ite (fun _ => hfunction) fun _ => hnamed
  · exact hnamed

/-- Each token that an expression may begin with leads to a rule of its own. -/
theorem returns_primary (hr : r.Shaped) : Returns WellShaped (primary r) := by
  unfold primary
  refine .skip fun t => ?_
  extract_lets leaf
  have hleaf {k : Kind} (hk : k.isLeaf) : Returns WellShaped (leaf k) := .skip fun _ => .leaf hk
  split
  · exact returns_wordExpression hr _ _
  · exact hleaf rfl
  · exact hleaf rfl
  · exact hleaf rfl
  · exact (returns_template hr false).mono fun _ ht => ht.1
  · exact returns_parenthesized hr
  · exact returns_arrayLiteral hr
  · exact returns_objectLiteral hr
  · exact .unexpected

/-! ### Members and calls -/

/-- A member keeps the name in its node, so the object is its only child. -/
theorem returns_memberName (start : Nat) {object : Tree} (hobject : WellShaped object)
    (optional : Bool) : Returns WellShaped (memberName start object optional) := by
  unfold memberName
  have hall : ∀ t ∈ [object], WellShaped t := List.forall_mem_singleton.2 hobject
  refine .skip fun t => ?_
  split
  · exact .skip fun _ => .finish fun _ => .node rfl rfl hall
  · exact .skip fun _ => .finish fun _ => .node rfl rfl hall
  · exact .unexpected

/-- An index has the object and the expression in the brackets. -/
theorem returns_indexRest (hr : r.Shaped) (start : Nat) {object : Tree}
    (hobject : WellShaped object) (optional : Bool) :
    Returns WellShaped (indexRest r start object optional) := by
  unfold indexRest
  refine .bind (returns_fullExpression hr) fun index hindex => .skip fun _ => ?_
  exact .finish fun _ => .node rfl rfl (forall_mem_pair.2 ⟨hobject, hindex⟩)

/-- One link more keeps a chain well shaped: whatever is attached has the chain so far as its first
child, and what a tag is put in front of is a template. -/
theorem returns_extend (hr : r.Shaped) (start : Nat) (calls : Bool) (link : Tree × Bool)
    (hlink : WellShaped link.1) :
    Returns (fun grown => ∀ next ∈ grown, WellShaped next.1) (extend r start calls link) := by
  obtain ⟨t, optional⟩ := link
  have hsome {rule : Parser Tree} (hrule : Returns WellShaped rule) (flag : Bool) :
      Returns (fun grown : Option (Tree × Bool) => ∀ next ∈ grown, WellShaped next.1)
        (do return some (← rule, flag)) := by
    refine .map (hrule.mono fun u hu => ?_)
    rintro _ ⟨⟩
    exact hu
  have hnone : Returns (fun grown : Option (Tree × Bool) => ∀ next ∈ grown, WellShaped next.1)
      (pure none) := .pure fun _ h => nomatch h
  have hcall (viaPoint flag : Bool) :
      Returns (fun grown : Option (Tree × Bool) => ∀ next ∈ grown, WellShaped next.1)
        (do
          let items ← callArguments r
          return some (← finish start (.call viaPoint) (t :: items), flag)) := by
    refine .bind (returns_callArguments hr) fun items hitems => hsome (.finish fun _ => ?_) flag
    exact .node (counts_cons (fun _ => rfl) ..) rfl (List.forall_mem_cons.2 ⟨hlink, hitems⟩)
  unfold extend
  refine .skip fun _ => .ite (fun _ => ?_) fun _ => .skip fun _ => ?_
  · exact hsome (returns_memberName start hlink false) optional
  refine .ite (fun _ => ?_) fun _ => .skip fun _ => .ite (fun _ => ?_) fun _ => ?_
  · exact hsome (returns_indexRest hr start hlink false) optional
  · refine .bind (returns_template hr true) fun quasi hquasi => hsome (.finish fun _ => ?_) optional
    exact .node rfl hquasi.2 (forall_mem_pair.2 ⟨hlink, hquasi.1⟩)
  refine .ite (fun _ => .skip fun _ => ?_) fun _ => hnone
  refine .ite (fun _ => hcall false optional) fun _ => .skip fun _ => ?_
  refine .ite (fun _ => .skip fun _ => ?_) fun _ => hnone
  refine .ite (fun _ => hcall true true) fun _ => .skip fun _ => .ite (fun _ => ?_) fun _ => ?_
  · exact hsome (returns_indexRest hr start hlink true) true
  · exact hsome (returns_memberName start hlink true) true

/-- A call at the end of a chain only changes its kind to one with as many children. -/
theorem chainOf_wellShaped {t : Tree} (h : WellShaped t) : WellShaped (chainOf t) := by
  unfold chainOf
  split
  · refine .node rfl rfl (List.forall_mem_singleton.2 ?_)
    obtain ⟨hcount, -, hcs⟩ := wellShaped_node.1 h
    exact .node hcount rfl hcs
  · exact .node rfl rfl (List.forall_mem_singleton.2 h)

/-- A construction has its callee and any number of arguments, none if there are no parentheses. -/
theorem returns_newExpression (hr : r.Shaped) : Returns WellShaped (newExpression r) := by
  unfold newExpression
  refine .skip fun start => .skip fun _ => .skip fun _ => ?_
  refine .ite (fun _ => .skip fun name => .leaf rfl) fun _ => ?_
  refine .bind hr.newCallee fun callee hcallee => .skip fun _ => ?_
  extract_lets node
  have hnode (items : List Tree) (hitems : ∀ t ∈ items, WellShaped t) :
      Returns WellShaped (node items) :=
    .finish fun _ =>
      .node (counts_cons (fun _ => rfl) ..) rfl (List.forall_mem_cons.2 ⟨hcallee, hitems⟩)
  refine .ite (fun _ => ?_) fun _ => ?_
  · exact .bind (returns_callArguments hr) hnode
  · exact .bind (.pure fun _ hu => absurd hu List.not_mem_nil) hnode

theorem returns_chainHead (hr : r.Shaped) : Returns WellShaped (chainHead r) := by
  unfold chainHead
  refine .skip fun _ => .ite (fun _ => ?_) fun _ => ?_
  · exact returns_newExpression hr
  · exact returns_primary hr

theorem returns_newCalleeRule (hr : r.Shaped) : Returns WellShaped (newCalleeRule r) := by
  unfold newCalleeRule
  refine .skip fun start => .bind (returns_chainHead hr) fun head hhead => ?_
  refine .bind (.growWhile (returns_extend hr start false) hhead) fun (t, _) ht => ?_
  exact .pure ht

/-- A chain is wrapped if it has an optional link. -/
theorem returns_callChainRule (hr : r.Shaped) : Returns WellShaped (callChainRule r) := by
  unfold callChainRule
  refine .skip fun start => .bind (returns_chainHead hr) fun head hhead => ?_
  refine .bind (.growWhile (returns_extend hr start true) hhead) fun (t, optional) ht => .pure ?_
  cases optional with
  | false => exact ht
  | true => exact chainOf_wellShaped ht

/-! ### Operators -/

/-- The target of an update may be read as well, so it is still an expression. -/
theorem returns_updated (hr : r.Shaped) : Returns WellShaped (updated r) := by
  unfold updated
  refine .skip fun start => .bind (returns_callChainRule hr) fun t ht => .skip fun token => ?_
  split
  · refine .ite (fun _ => .pure ht) fun _ => .bind (returns_readable ht) fun target htarget => ?_
    exact .skip fun _ => .finish fun _ => .node rfl rfl (List.forall_mem_singleton.2 htarget)
  · exact .pure ht

/-- Whether `await` is allowed is complained about later; its node is the same either way. -/
theorem returns_awaitExpression (hr : r.Shaped) : Returns WellShaped (awaitExpression r) := by
  unfold awaitExpression
  refine .skip fun start => .skip fun ctx => ?_
  extract_lets operand
  have hoperand (u : Unit) : Returns WellShaped (operand u) := by
    refine .skip fun _ => .bind hr.unary fun value hvalue => ?_
    exact .finish fun _ => .node rfl rfl (List.forall_mem_singleton.2 hvalue)
  refine .ite (fun _ => hoperand ()) fun _ => .ite (fun _ => ?_) fun _ => ?_
  · exact .skip hoperand
  · exact .skip hoperand

/-- Operators in front of an operand, which may have more of them in front. -/
theorem returns_unaryRule (hr : r.Shaped) : Returns WellShaped (unaryRule r) := by
  unfold unaryRule
  refine .skip fun start => .skip fun t => ?_
  split
  · refine .skip fun _ => .bind hr.unary fun value hvalue => ?_
    exact .finish fun _ => .node rfl rfl (List.forall_mem_singleton.2 hvalue)
  · refine .skip fun _ => .bind hr.unary fun operand hoperand => ?_
    refine .bind (returns_readable hoperand) fun target htarget => ?_
    exact .finish fun _ => .node rfl rfl (List.forall_mem_singleton.2 htarget)
  · refine .skip fun _ => .ite (fun _ => ?_) fun _ => ?_
    · exact returns_awaitExpression hr
    · exact returns_updated hr

/-- One operator more keeps an operand well shaped: the node has two children, the operand so far
being the first. -/
theorem returns_extendOperand (hr : r.Shaped) (start : Nat) (level : Level) (left : Tree)
    (hleft : WellShaped left) :
    Returns (fun grown => ∀ t ∈ grown, WellShaped t) (extendOperand r start level left) := by
  have hpair {k : Kind} (hcount : k.counts 2) (hplace : ∀ a b, k.places [a, b]) {right : Tree}
      (hright : WellShaped right) :
      Returns (fun grown : Option Tree => ∀ t ∈ grown, WellShaped t)
        (do return some (← finish start k [left, right])) := by
    refine .map (.finish fun _ => ?_)
    rintro _ ⟨⟩
    exact .node hcount (hplace ..) (forall_mem_pair.2 ⟨hleft, hright⟩)
  have hnone : Returns (fun grown : Option Tree => ∀ t ∈ grown, WellShaped t) (pure none) :=
    .pure fun _ h => nomatch h
  unfold extendOperand
  refine .skip fun t => .skip fun _ => .ite (fun _ => .skip fun _ => ?_) fun _ => ?_
  · exact .bind hr.type fun type htype => hpair rfl (fun _ _ => rfl) htype
  split
  · refine .skip fun _ => .ite (fun _ => hnone) fun _ => .ite (fun _ => hnone) fun _ => ?_
    refine .skip fun _ => .bind (hr.operandAbove _) fun right hright => ?_
    exact hpair rfl (fun _ _ => rfl) hright
  · exact hnone

theorem returns_operandAboveRule (hr : r.Shaped) (level : Level) :
    Returns WellShaped (operandAboveRule r level) := by
  unfold operandAboveRule
  refine .skip fun start => .bind hr.unary fun left hleft => ?_
  exact .growWhile (returns_extendOperand hr start level) hleft

/-- A conditional has a test and both of its branches. -/
theorem returns_conditional (hr : r.Shaped) : Returns WellShaped (conditional r) := by
  unfold conditional
  refine .skip fun start => .bind (hr.operandAbove _) fun test htest => .skip fun _ => ?_
  refine .ite (fun _ => ?_) fun _ => .pure htest
  refine .bind (returns_fullAssignment hr) fun yes hyes => .skip fun _ => ?_
  refine .bind hr.assignment fun no hno => .finish fun _ => .node rfl rfl ?_
  exact List.forall_mem_cons.2 ⟨htest, forall_mem_pair.2 ⟨hyes, hno⟩⟩

/-- A `yield` has no operand or one. -/
theorem returns_yieldExpression (hr : r.Shaped) : Returns WellShaped (yieldExpression r) := by
  unfold yieldExpression
  refine .skip fun start => .skip fun _ => .skip fun t => ?_
  extract_lets bare
  refine .ite (fun _ => .finish fun _ => .node rfl rfl nofun) fun _ => .skip fun delegate => ?_
  refine .bind hr.assignment fun value hvalue => ?_
  exact .finish fun _ => .node rfl rfl (List.forall_mem_singleton.2 hvalue)

/-- What is found at the beginning of an arrow function is a rule, and that rule returns well-shaped
trees. -/
theorem returns_arrowFirst? (hr : r.Shaped) :
    Returns (fun found => ∀ arrow ∈ found, Returns WellShaped arrow) (arrowFirst? r) := by
  unfold arrowFirst?
  refine .skip fun start => .skip fun s => ?_
  extract_lets tokens
  clear_value tokens
  have hnone :
      Returns (fun found : Option (Parser Tree) => ∀ arrow ∈ found, Returns WellShaped arrow)
        (pure none) := .pure fun _ h => nomatch h
  have hsome {arrow : Parser Tree} {b : Bool} (h : Returns WellShaped arrow) :
      Returns (fun found : Option (Parser Tree) => ∀ arrow ∈ found, Returns WellShaped arrow)
        (pure (if b then some arrow else none)) := by
    cases b with
    | false => exact hnone
    | true =>
      refine .pure ?_
      rintro _ ⟨⟩
      exact h
  split
  · split
    · exact hsome (returns_arrowOfParameters hr start false)
    · refine .skip fun _ => .ite (fun _ => ?_) fun _ => .ite (fun _ => ?_) fun _ => hnone
      · exact hsome (b := true) (returns_arrowOfName hr start false)
      · split
        · refine .ite (fun _ => hnone) fun _ => .ite (fun _ => ?_) fun _ => ?_
          · exact hsome (b := true) (.skip fun _ => returns_arrowOfParameters hr start true)
          · split
            · exact hsome (.skip fun _ => returns_arrowOfName hr start true)
            · exact hnone
        · exact hnone
    · exact hnone
  · exact hnone

/-- An assignment has a target that is read from the expression in front of it. -/
theorem returns_assignmentRule (hr : r.Shaped) : Returns WellShaped (assignmentRule r) := by
  unfold assignmentRule
  refine .bind (returns_arrowFirst? hr) fun found hfound => ?_
  split
  · exact hfound _ rfl
  refine .skip fun _ => .skip fun _ => .ite (fun _ => returns_yieldExpression hr) fun _ => ?_
  refine .skip fun start => .bind (returns_conditional hr) fun left hleft => .skip fun t => ?_
  split
  · refine .bind (returns_assignable hleft) fun target htarget => .skip fun _ => ?_
    refine .bind hr.assignment fun value hvalue => .finish fun _ => ?_
    exact .node rfl rfl (forall_mem_pair.2 ⟨htarget, hvalue⟩)
  · refine .bind (returns_readable hleft) fun target htarget => .skip fun _ => ?_
    refine .bind hr.assignment fun value hvalue => .finish fun _ => ?_
    exact .node rfl rfl (forall_mem_pair.2 ⟨htarget, hvalue⟩)
  · exact .pure hleft

end CallBridge.Script.Parser
