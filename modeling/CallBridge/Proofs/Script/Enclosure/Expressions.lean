import CallBridge.Proofs.Script.Enclosure.Functions
import CallBridge.Script.Parser.Expression

/-!
# Placements in expressions

Every rule for expressions gives trees that fit where they stand. An `await` where none may stand is
complained about (`gives_awaitExpression`), and `yield` is only read as an operator in generators
(`gives_assignmentRule`).
-/

namespace CallBridge.Script.Parser

variable {ctx : Context} {r : Rules}

/-- The parts of a sequence are read one after the other in the same surroundings. -/
theorem gives_expression (hr : r.Sound) : Gives ctx ctx.Holds (expression r) := by
  unfold expression
  refine .skip .here fun start => .bind (hr.assignment ctx) fun first => ?_
  refine .skip .atMark fun _ => .ite (fun _ => ?_) fun _ => .pure id
  refine .bind (.repeatWhile .eatMark (hr.assignment ctx)) fun more => ?_
  exact .finish fun _ hmore hfirst => .node rfl (Context.holdsAll_cons.2 ⟨hfirst, hmore⟩)

/-- Brackets allow `in` again and change nothing else. -/
theorem gives_fullExpression (hr : r.Sound) : Gives ctx ctx.Holds (fullExpression r) :=
  .allowing (fun _ => gives_expression hr) true

theorem gives_fullAssignment (hr : r.Sound) : Gives ctx ctx.Holds (fullAssignment r) :=
  .allowing hr.assignment true

theorem gives_spreadable (hr : r.Sound) : Gives ctx ctx.Holds (spreadable r) := by
  unfold spreadable
  refine .skip .atMark fun _ => .ite (fun _ => ?_) fun _ => gives_fullAssignment hr
  refine .skip .here fun start => .skip .advance fun _ => ?_
  refine .bind (gives_fullAssignment hr) fun value => ?_
  exact .finish fun _ hvalue => .node rfl (by simp [hvalue])

/-- Arguments are read where the call stands. -/
theorem gives_callArguments (hr : r.Sound) : Gives ctx ctx.HoldsAll (callArguments r) := by
  unfold callArguments
  refine .bind (.delimited (gives_spreadable hr)) fun items => ?_
  exact .skip .expectMark fun _ => .pure id

/-! ### Literals -/

/-- The substitutions of a template fit where it stands. A piece that is badly escaped is complained
about. -/
theorem gives_template (hr : r.Sound) (isTagged : Bool) :
    Gives ctx ctx.Holds (template r isTagged) := by
  unfold template
  refine .skip .here fun start => ?_
  extract_lets piece grow
  have hpiece : Quiet piece := by
    refine Quiet.current.bind fun t => ?_
    split
    · extract_lets taken
      have htaken (u : Unit) : Quiet (taken u) := Quiet.advance.bind fun _ => .pure _
      exact .ite (Quiet.bind (fun _ => .complain) htaken) (htaken ())
    · exact .failExpected
  refine .skip hpiece fun (head, closed) => ?_
  have hgrow (acc : List Quasi × List Tree × Bool) :
      Gives ctx (fun grown => ctx.HoldsAll acc.2.1 → ∀ next ∈ grown, ctx.HoldsAll next.2.1)
        (grow acc) := by
    obtain ⟨quasis, values, closed⟩ := acc
    refine .ite (fun _ => .pure fun _ _ h => nomatch h) fun _ => ?_
    refine .bind (gives_fullExpression hr) fun value => .skip hpiece fun (q, closed) => ?_
    refine .pure fun hvalue hvalues next hnext => ?_
    obtain rfl := Option.some.inj hnext
    exact Context.holdsAll_cons.2 ⟨hvalue, hvalues⟩
  refine .bind (.growWhile (P := fun acc => ctx.HoldsAll acc.2.1) hgrow _) fun acc => ?_
  obtain ⟨quasis, values, closed⟩ := acc
  exact .finish fun _ hvalues => .node rfl (Context.holdsAll_reverse (hvalues Context.holdsAll_nil))

/-- An item that is left out is a leaf. -/
theorem gives_arrayItem (hr : r.Sound) : Gives ctx ctx.Holds (arrayItem r) := by
  unfold arrayItem
  refine .skip .atMark fun _ => .skip .atMark fun _ => .ite (fun _ => .pure (.leaf rfl)) fun _ => ?_
  exact gives_spreadable hr

theorem gives_arrayLiteral (hr : r.Sound) : Gives ctx ctx.Holds (arrayLiteral r) := by
  unfold arrayLiteral
  refine .skip .here fun start => .skip .expectMark fun _ => ?_
  refine .bind (.delimited (gives_arrayItem hr)) fun items => .skip .expectMark fun _ => ?_
  exact .finish fun _ hitems => .node rfl hitems

/-- The key of a property is read where the object stands, and so is its value, unless it has the
form of a method. -/
theorem gives_objectItem (hr : r.Sound) : Gives ctx ctx.Holds (objectItem r) := by
  unfold objectItem
  refine .skip .atMark fun _ => .ite (fun _ => gives_spreadable hr) fun _ => ?_
  refine .skip .here fun start => .skip .modifiers fun m => .skip .current fun t => ?_
  refine .bind (gives_propertyKey hr) fun (key, computed) => ?_
  refine .skip .atMark fun _ => .ite (fun _ => ?_) fun _ => .skip .eatMark fun _ => ?_
  · refine .bind (gives_methodRest hr m.isAsync m.isGenerator) fun value => ?_
    exact .finish fun _ hvalue hkey => .node rfl (by simp [hkey, hvalue])
  refine .ite (fun _ => ?_) fun _ => ?_
  · refine .bind (gives_fullAssignment hr) fun value => ?_
    exact .finish fun _ hvalue hkey => .node rfl (by simp [hkey, hvalue])
  split
  · refine .read (.ite (fun _ => .skip .eatMark fun _ => ?_) fun _ => .failExpected)
    refine .ite (fun _ => ?_) fun _ => ?_
    · refine .bind (gives_fullAssignment hr) fun value => ?_
      exact .finish fun _ hvalue hkey => .node rfl (by simp [hkey, hvalue])
    · have hvalue {name : String} {s : Span} : ctx.Holds (.node (.reference name) s []) := .leaf rfl
      exact .finish fun _ hkey => .node rfl (by simp [hkey, hvalue])
  · exact .failExpected

theorem gives_objectLiteral (hr : r.Sound) : Gives ctx ctx.Holds (objectLiteral r) := by
  unfold objectLiteral
  refine .skip .here fun start => .skip .expectMark fun _ => ?_
  refine .bind (.delimited (gives_objectItem hr)) fun items => .skip .expectMark fun _ => ?_
  exact .finish fun _ hitems => .node rfl hitems

/-! ### Primary expressions -/

theorem gives_classExpression (hr : r.Sound) : Gives ctx ctx.Holds (classExpression r) :=
  gives_classFrom hr false true

/-- What is imported is read where the call stands; `import.meta` is a leaf. -/
theorem gives_importExpression (hr : r.Sound) : Gives ctx ctx.Holds (importExpression r) := by
  unfold importExpression
  refine .skip .here fun start => .skip .advance fun _ => .skip .eatMark fun _ => ?_
  refine .ite (fun _ => .skip .anyWord fun name => ?_) fun _ => ?_
  · extract_lets node
    have hnode (u : Unit) : Gives ctx ctx.Holds (node u) := .leaf rfl
    exact .ite (fun _ => .skip .seeModule hnode) fun _ => hnode ()
  · refine .skip .expectMark fun _ => .bind (gives_fullAssignment hr) fun source => ?_
    refine .skip .eatMark fun _ => .skip .atMark fun _ => ?_
    extract_lets node
    have hnode (options : List Tree) :
        Gives ctx (fun t => ctx.HoldsAll options → ctx.Holds source → ctx.Holds t)
          (node options) :=
      .skip .expectMark fun _ => .finish fun _ hoptions hsource =>
        .node rfl (Context.holdsAll_cons.2 ⟨hsource, hoptions⟩)
    refine .ite (fun _ => ?_) fun _ => ?_
    · refine .bind (gives_fullAssignment hr) fun options => .skip .eatMark fun _ => ?_
      refine .bind (.pure (Q := fun all => ctx.Holds options → ctx.HoldsAll all) ?_) fun all => ?_
      · exact fun h => by simp [h]
      · exact (hnode all).mono fun t ht hall hoptions => ht (hall hoptions)
    · exact .bind (.pure Context.holdsAll_nil) hnode

theorem gives_parenthesized (hr : r.Sound) : Gives ctx ctx.Holds (parenthesized r) := by
  unfold parenthesized
  refine .skip .here fun start => .skip .expectMark fun _ => ?_
  refine .bind (gives_fullExpression hr) fun inside => .skip .expectMark fun _ => ?_
  exact .finish fun _ hinside => .node rfl (by simp [hinside])

/-- A word is a leaf or begins a function, a class or an import, which bring their own surroundings.
-/
theorem gives_wordExpression (hr : r.Sound) (name : String) (escaped : Bool) :
    Gives ctx ctx.Holds (wordExpression r name escaped) := by
  unfold wordExpression
  refine .skip .here fun start => ?_
  extract_lets leaf named
  have hleaf {k : Kind} (hk : k.isPlain) : Gives ctx ctx.Holds (leaf k) :=
    .skip .advance fun _ => .leaf hk
  have hnamed : Gives ctx ctx.Holds named :=
    .read (.ite (fun _ => hleaf rfl) fun _ => .unexpected)
  refine .ite (fun _ => hnamed) fun _ => ?_
  split
  · exact hleaf rfl
  · exact hleaf rfl
  · exact hleaf rfl
  · exact hleaf rfl
  · exact hleaf rfl
  · exact gives_functionExpression hr false true
  · exact gives_classExpression hr
  · exact gives_importExpression hr
  · refine .skip .next fun t => .ite (fun _ => ?_) fun _ => hnamed
    exact gives_functionExpression hr false true
  · exact hnamed

/-- Each token that an expression may begin with leads to a rule that gives what fits. -/
theorem gives_primary (hr : r.Sound) : Gives ctx ctx.Holds (primary r) := by
  unfold primary
  refine .skip .current fun t => ?_
  extract_lets leaf
  have hleaf {k : Kind} (hk : k.isPlain) : Gives ctx ctx.Holds (leaf k) :=
    .skip .advance fun _ => .leaf hk
  split
  · exact gives_wordExpression hr _ _
  · exact hleaf rfl
  · exact hleaf rfl
  · exact hleaf rfl
  · exact gives_template hr false
  · exact gives_parenthesized hr
  · exact gives_arrayLiteral hr
  · exact gives_objectLiteral hr
  · exact .unexpected

/-! ### Members and calls -/

theorem gives_memberName (start : Nat) (object : Tree) (optional : Bool) :
    Gives ctx (fun t => ctx.Holds object → ctx.Holds t) (memberName start object optional) := by
  unfold memberName
  refine .skip .current fun t => ?_
  split
  · exact .skip .advance fun _ => .finish fun _ hobject => .node rfl (by simp [hobject])
  · exact .skip .advance fun _ => .finish fun _ hobject => .node rfl (by simp [hobject])
  · exact .unexpected

theorem gives_indexRest (hr : r.Sound) (start : Nat) (object : Tree) (optional : Bool) :
    Gives ctx (fun t => ctx.Holds object → ctx.Holds t) (indexRest r start object optional) := by
  unfold indexRest
  refine .bind (gives_fullExpression hr) fun index => .skip .expectMark fun _ => ?_
  exact .finish fun _ hindex hobject => .node rfl (by simp [hobject, hindex])

theorem Quiet.atTemplate : Quiet atTemplate := by
  unfold Parser.atTemplate
  refine Quiet.current.bind fun t => ?_
  split <;> exact .pure _

/-- One link more keeps a chain fitting: what is attached is read where the chain stands. -/
theorem gives_extend (hr : r.Sound) (start : Nat) (calls : Bool) (link : Tree × Bool) :
    Gives ctx (fun grown => ctx.Holds link.1 → ∀ next ∈ grown, ctx.Holds next.1)
      (extend r start calls link) := by
  obtain ⟨t, optional⟩ := link
  have hsome {u : Tree} (flag : Bool) (hu : ctx.Holds u) :
      ∀ next ∈ some (u, flag), ctx.Holds next.1 := by
    rintro _ ⟨⟩
    exact hu
  have hnone : Gives ctx (fun grown : Option (Tree × Bool) => ctx.Holds t → ∀ next ∈ grown,
      ctx.Holds next.1) (pure none) := .pure fun _ _ h => nomatch h
  have hcall {k : Kind} (hk : k.isPlain) (flag : Bool) :
      Gives ctx (fun grown => ctx.Holds t → ∀ next ∈ grown, ctx.Holds next.1)
        (do
          let items ← callArguments r
          return some (← finish start k (t :: items), flag)) := by
    refine .bind (gives_callArguments hr) fun items => .map (.finish fun _ hitems ht => ?_)
    exact hsome flag (.node hk (Context.holdsAll_cons.2 ⟨ht, hitems⟩))
  unfold extend
  refine .skip .eatMark fun _ => .ite (fun _ => ?_) fun _ => .skip .eatMark fun _ => ?_
  · exact .map ((gives_memberName start t false).mono fun u hu ht => hsome optional (hu ht))
  refine .ite (fun _ => ?_) fun _ => .skip .atTemplate fun _ => ?_
  · exact .map ((gives_indexRest hr start t false).mono fun u hu ht => hsome optional (hu ht))
  refine .ite (fun _ => ?_) fun _ => .ite (fun _ => ?_) fun _ => hnone
  · refine .bind (gives_template hr true) fun quasi => .map (.finish fun _ hquasi ht => ?_)
    exact hsome optional (.node rfl (by simp [ht, hquasi]))
  refine .skip .eatMark fun _ => .ite (fun _ => hcall rfl optional) fun _ => ?_
  refine .skip .eatMark fun _ => .ite (fun _ => ?_) fun _ => hnone
  refine .skip .eatMark fun _ => .ite (fun _ => hcall rfl true) fun _ => ?_
  refine .skip .eatMark fun _ => .ite (fun _ => ?_) fun _ => ?_
  · exact .map ((gives_indexRest hr start t true).mono fun u hu ht => hsome true (hu ht))
  · exact .map ((gives_memberName start t true).mono fun u hu ht => hsome true (hu ht))

/-- Marking a chain as one changes no placement in it. -/
theorem chainOf_holds {t : Tree} (h : ctx.Holds t) : ctx.Holds (chainOf t) := by
  unfold chainOf
  split
  · refine .node rfl (Context.holdsAll_cons.2 ⟨.node rfl ?_, Context.holdsAll_nil⟩)
    exact (fits_of_isPlain rfl).1 h
  · exact .node rfl (by simp [h])

/-- The callee and the arguments of `new` are read where it stands. -/
theorem gives_newExpression (hr : r.Sound) : Gives ctx ctx.Holds (newExpression r) := by
  unfold newExpression
  refine .skip .here fun start => .skip .advance fun _ => .skip .eatMark fun _ => ?_
  refine .ite (fun _ => .skip .anyWord fun name => .leaf rfl) fun _ => ?_
  refine .bind (hr.newCallee ctx) fun callee => .skip .eatMark fun _ => ?_
  extract_lets node
  have hnode (items : List Tree) :
      Gives ctx (fun t => ctx.HoldsAll items → ctx.Holds callee → ctx.Holds t) (node items) :=
    .finish fun _ hitems hcallee => .node rfl (Context.holdsAll_cons.2 ⟨hcallee, hitems⟩)
  refine .ite (fun _ => ?_) fun _ => ?_
  · exact .bind (gives_callArguments hr) hnode
  · exact .bind (.pure Context.holdsAll_nil) hnode

theorem gives_chainHead (hr : r.Sound) : Gives ctx ctx.Holds (chainHead r) := by
  unfold chainHead
  refine .skip .atWord fun _ => .ite (fun _ => ?_) fun _ => ?_
  · exact gives_newExpression hr
  · exact gives_primary hr

theorem gives_newCalleeRule (hr : r.Sound) : Gives ctx ctx.Holds (newCalleeRule r) := by
  unfold newCalleeRule
  refine .skip .here fun start => .bind (gives_chainHead hr) fun head => ?_
  refine .bind (.growWhile (P := fun link : Tree × Bool => ctx.Holds link.1)
    (gives_extend hr start false) (head, false)) fun (t, _) => ?_
  exact .pure fun ht hhead => ht hhead

/-- A chain fits by the invariant of its links, also when it is wrapped in the end. -/
theorem gives_callChainRule (hr : r.Sound) : Gives ctx ctx.Holds (callChainRule r) := by
  unfold callChainRule
  refine .skip .here fun start => .bind (gives_chainHead hr) fun head => ?_
  refine .bind (.growWhile (P := fun link : Tree × Bool => ctx.Holds link.1)
    (gives_extend hr start true) (head, false)) fun (t, optional) => .pure fun ht hhead => ?_
  cases optional with
  | false => exact ht hhead
  | true => exact chainOf_holds (ht hhead)

/-! ### Operators -/

/-- The target of an update fits because the expression does that it is read from. -/
theorem gives_updated (hr : r.Sound) : Gives ctx ctx.Holds (updated r) := by
  unfold updated
  refine .skip .here fun start => .bind (gives_callChainRule hr) fun t => ?_
  refine .skip .current fun token => ?_
  split
  · refine .ite (fun _ => .pure id) fun _ => .bind (gives_readable t) fun target => ?_
    refine .skip .advance fun _ => .finish fun _ htarget ht => ?_
    exact .node rfl (by simp [htarget ht])
  · exact .pure id

/-- Looking for an operand changes nothing. -/
theorem Quiet.operandFollows : Quiet operandFollows := by
  unfold Parser.operandFollows
  refine Quiet.next.bind fun t => .ite (.pure _) ?_
  split <;> exact .pure _

/-- Whether `await` is an operator is found by looking ahead. -/
theorem Quiet.awaitFirst : Quiet awaitFirst := by
  refine Quiet.atWord.bind fun _ => .ite (Quiet.read.bind fun _ => ?_) (.pure _)
  exact .ite (.pure _) .operandFollows

/-- Where `await` may not stand, reading it leaves a complaint. -/
theorem gives_awaitExpression (hr : r.Sound) : Gives ctx ctx.Holds (awaitExpression r) := by
  unfold awaitExpression
  refine .skip .here fun start => .read ?_
  extract_lets operand
  have hoperand (u : Unit) :
      Gives ctx (fun t => ctx.enclosure.awaits → ctx.Holds t) (operand u) := by
    refine .skip .advance fun _ => .bind (hr.unary ctx) fun value => ?_
    exact .finish fun _ hvalue ha => fits_await.2 ⟨ha, List.forall_mem_singleton.2 hvalue⟩
  refine .ite (fun ha => ?_) fun _ => .ite (fun ha => ?_) fun _ => ?_
  · exact (hoperand ()).mono fun t ht => ht (by simp [Context.enclosure, ha])
  · refine .skip .complainOfScript fun u => (hoperand u).mono fun t ht => ht ?_
    simp_all [Context.enclosure]
  · refine .bind (.complain (Q := fun _ => False)) fun u => ?_
    exact (hoperand u).mono fun _ _ h => h.elim

/-- An operand is read where its operator stands, and so is what `await` waits for. -/
theorem gives_unaryRule (hr : r.Sound) : Gives ctx ctx.Holds (unaryRule r) := by
  unfold unaryRule
  refine .skip .here fun start => .skip .current fun t => ?_
  split
  · refine .skip .advance fun _ => .bind (hr.unary ctx) fun value => ?_
    exact .finish fun _ hvalue => .node rfl (by simp [hvalue])
  · refine .skip .advance fun _ => .bind (hr.unary ctx) fun operand => ?_
    refine .bind (gives_readable operand) fun target => ?_
    exact .finish fun _ htarget hoperand => .node rfl (by simp [htarget hoperand])
  · refine .skip .awaitFirst fun _ => .ite (fun _ => ?_) fun _ => ?_
    · exact gives_awaitExpression hr
    · exact gives_updated hr

/-- One operator more keeps an operand fitting: its right operand is read where the left one is. -/
theorem gives_extendOperand (hr : r.Sound) (start : Nat) (level : Level) (left : Tree) :
    Gives ctx (fun grown => ctx.Holds left → ∀ t ∈ grown, ctx.Holds t)
      (extendOperand r start level left) := by
  have hsome {u : Tree} (hu : ctx.Holds u) : ∀ t ∈ some u, ctx.Holds t := by
    rintro _ ⟨⟩
    exact hu
  have hnone : Gives ctx (fun grown : Option Tree => ctx.Holds left → ∀ t ∈ grown, ctx.Holds t)
      (pure none) := .pure fun _ _ h => nomatch h
  unfold extendOperand
  refine .skip .current fun t => .read (.ite (fun _ => ?_) fun _ => ?_)
  · refine .skip .advance fun _ => .bind (hr.type ctx) fun type => ?_
    exact .map (.finish fun _ htype hleft => hsome (.node rfl (by simp [hleft, htype])))
  split
  · refine .read (.ite (fun _ => hnone) fun _ => .ite (fun _ => hnone) fun _ => ?_)
    refine .skip .advance fun _ => .bind (hr.operandAbove _ ctx) fun right => ?_
    exact .map (.finish fun _ hright hleft => hsome (.node rfl (by simp [hleft, hright])))
  · exact hnone

theorem gives_operandAboveRule (hr : r.Sound) (level : Level) :
    Gives ctx ctx.Holds (operandAboveRule r level) := by
  unfold operandAboveRule
  refine .skip .here fun start => .bind (hr.unary ctx) fun left => ?_
  exact .growWhile (gives_extendOperand hr start level) left

/-- The test and both branches are read where the conditional stands. -/
theorem gives_conditional (hr : r.Sound) : Gives ctx ctx.Holds (conditional r) := by
  unfold conditional
  refine .skip .here fun start => .bind (hr.operandAbove _ ctx) fun test => ?_
  refine .skip .eatMark fun _ => .ite (fun _ => ?_) fun _ => .pure id
  refine .bind (gives_fullAssignment hr) fun yes => .skip .expectMark fun _ => ?_
  refine .bind (hr.assignment ctx) fun no => ?_
  exact .finish fun _ hno hyes htest => .node rfl (by simp [htest, hyes, hno])

/-- In a generator `yield` may stand. -/
theorem gives_yieldExpression (hr : r.Sound) (h : ctx.isGenerator) :
    Gives ctx ctx.Holds (yieldExpression r) := by
  unfold yieldExpression
  refine .skip .here fun start => .skip .advance fun _ => .skip .current fun t => ?_
  extract_lets bare
  refine .ite (fun _ => .finish fun _ => ?_) fun _ => ?_
  · exact fits_yield.2 ⟨h, fun t ht => absurd ht List.not_mem_nil⟩
  · refine .skip .eatMark fun delegate => .bind (hr.assignment ctx) fun value => ?_
    exact .finish fun _ hvalue => fits_yield.2 ⟨h, List.forall_mem_singleton.2 hvalue⟩

/-- Finding the beginning of an arrow function only looks ahead, and what is found is a rule that
gives what fits. -/
theorem looks_arrowFirst? (hr : r.Sound) :
    Looks ctx (fun found => ∀ arrow ∈ found, Gives ctx ctx.Holds arrow) (arrowFirst? r) := by
  unfold arrowFirst?
  refine .bind .here fun start _ => .bind .get fun s _ => ?_
  extract_lets tokens
  clear_value tokens
  have hnone : Looks ctx (fun found => ∀ arrow ∈ found, Gives ctx ctx.Holds arrow)
      (pure none) := .pure fun _ h => nomatch h
  have hsome {arrow : Parser Tree} {b : Bool} (h : Gives ctx ctx.Holds arrow) :
      Looks ctx (fun found => ∀ arrow ∈ found, Gives ctx ctx.Holds arrow)
        (pure (if b then some arrow else none)) := by
    cases b with
    | false => exact hnone
    | true =>
      refine .pure ?_
      rintro _ ⟨⟩
      exact h
  split
  · split
    · exact hsome (gives_arrowOfParameters hr start false)
    · refine .bind .read fun _ _ => .ite ?_ (.ite ?_ hnone)
      · exact hsome (b := true) (gives_arrowOfName hr start false)
      · split
        · refine .ite hnone (.ite ?_ ?_)
          · exact hsome (b := true) (.skip .advance fun _ => gives_arrowOfParameters hr start true)
          · split
            · exact hsome (.skip .advance fun _ => gives_arrowOfName hr start true)
            · exact hnone
        · exact hnone
    · exact hnone
  · exact hnone

/-- Every expression fits where it stands: `yield` is read as an operator in generators alone. -/
theorem gives_assignmentRule (hr : r.Sound) : Gives ctx ctx.Holds (assignmentRule r) := by
  unfold assignmentRule
  refine .look (looks_arrowFirst? hr) fun found hfound => ?_
  split
  · exact hfound _ rfl
  refine .read (.skip .atWord fun _ => .ite (fun h => ?_) fun _ => ?_)
  · exact gives_yieldExpression hr (Bool.and_eq_true_iff.1 h).1
  refine .skip .here fun start => .bind (gives_conditional hr) fun left => ?_
  refine .skip .current fun t => ?_
  split
  · refine .bind (gives_assignable left) fun target => .skip .advance fun _ => ?_
    refine .bind (hr.assignment ctx) fun value => .finish fun _ hvalue htarget hleft => ?_
    exact .node rfl (by simp [htarget hleft, hvalue])
  · refine .bind (gives_readable left) fun target => .skip .advance fun _ => ?_
    refine .bind (hr.assignment ctx) fun value => .finish fun _ hvalue htarget hleft => ?_
    exact .node rfl (by simp [htarget hleft, hvalue])
  · exact .pure id

end CallBridge.Script.Parser
