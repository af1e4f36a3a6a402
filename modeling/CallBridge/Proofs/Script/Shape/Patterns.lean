import CallBridge.Proofs.Script.Enclosure.Patterns
import CallBridge.Proofs.Script.Shape.Returning

/-!
# Shapes of names, keys, patterns and types

The rules for what a declaration or a parameter introduces return trees that are well shaped, as
soon as the rules they call do (`Rules.Shaped`). Reading an expression as the target of an
assignment keeps the shape (`toTarget?_wellShaped`).
-/

namespace CallBridge.Script

/-- The rules that others call return trees that are well shaped. -/
structure Rules.Shaped (r : Rules) : Prop where
  assignment : Parser.Returns WellShaped r.assignment
  operandAbove : ∀ level, Parser.Returns WellShaped (r.operandAbove level)
  unary : Parser.Returns WellShaped r.unary
  newCallee : Parser.Returns WellShaped r.newCallee
  callChain : Parser.Returns WellShaped r.callChain
  pattern : Parser.Returns WellShaped r.pattern
  statement : Parser.Returns (ShapedAs Kind.isLine) r.statement
  type : Parser.Returns WellShaped r.type

variable {r : Rules} {t u : Tree}

/-- What is absent has no children. -/
theorem wellShaped_absent : WellShaped .absent := .leaf rfl

theorem shapedAs_absent : ShapedAs Kind.isLeaf .absent := ⟨wellShaped_absent, rfl⟩

namespace Parser

/-! ### Names and keys -/

/-- A name that is bound is a leaf. -/
theorem returns_bindingName : Returns (ShapedAs Kind.isLeaf) bindingName := by
  unfold bindingName
  exact .skip fun start => .skip fun name => .finish fun _ => ⟨.leaf rfl, rfl⟩

/-- The key that a word is has no parts. -/
theorem returnsAt_propertyKey (hr : r.Shaped) (t : Token) :
    ReturnsAt t (fun key => WellShaped key.1 ∧
      ∀ name escaped, t.lexeme = .word name escaped → key.1.kind.isLeaf) (propertyKey r) := by
  unfold propertyKey
  refine .current (Returns.at ?_)
  have hleaf {start : Nat} {k : Kind} (hk : k.isLeaf) :
      Returns (fun key : Tree × Bool => WellShaped key.1 ∧
        ∀ name escaped, t.lexeme = .word name escaped → key.1.kind.isLeaf) (do
          advance
          return (← finish start k [], false)) :=
    .skip fun _ => .map (.finish fun _ => ⟨.leaf hk, fun _ _ _ => hk⟩)
  split
  case h_6 ht =>
    refine .skip fun _ => .bind (.within hr.assignment) fun key hkey => .skip fun _ => ?_
    exact .pure ⟨hkey, fun name escaped h => by rw [ht] at h; cases h⟩
  case h_7 => exact .unexpected
  all_goals exact hleaf rfl

/-- The key of a property or a member, in brackets or not. -/
theorem returns_propertyKey (hr : r.Shaped) :
    Returns (fun key => WellShaped key.1) (propertyKey r) :=
  fun ctx s key s' h => (returnsAt_propertyKey hr _ ctx s key s' rfl h).1

/-! ### Types -/

theorem returns_simpleType (hr : r.Shaped) : Returns WellShaped (simpleType r) := by
  unfold simpleType
  refine .skip fun t => ?_
  split
  · refine .skip fun name => .skip fun opens => .ite (fun _ => ?_) fun _ => ?_
    · refine .bind (.delimited hr.type) fun arguments harguments => .skip fun _ => ?_
      exact .finish fun _ => .node rfl rfl harguments
    · exact .finish fun _ => .node rfl rfl nofun
  · exact .skip fun _ => .leaf rfl
  · exact .skip fun _ => .leaf rfl
  · exact .unexpected

theorem returns_arrayType (hr : r.Shaped) : Returns WellShaped (arrayType r) := by
  unfold arrayType
  refine .skip fun start => .bind (returns_simpleType hr) fun first hfirst => ?_
  refine .growWhile (fun t ht => .skip fun _ => .skip fun _ => ?_) hfirst
  refine .ite (fun _ => .skip fun _ => .skip fun _ => ?_) fun _ => .pure fun _ hy => nomatch hy
  refine .map (.finish fun _ y hy => ?_)
  exact Option.some.inj hy ▸ .node rfl rfl (List.forall_mem_singleton.2 ht)

/-- A type may be one of several, each with any number of brackets behind it. -/
theorem returns_typeRule (hr : r.Shaped) : Returns WellShaped (typeRule r) := by
  unfold typeRule
  refine .skip fun start => .bind (returns_arrayType hr) fun first hfirst => .skip fun _ => ?_
  refine .ite (fun _ => ?_) fun _ => .pure hfirst
  refine .bind (.repeatWhile (returns_arrayType hr)) fun more hmore => ?_
  exact .finish fun _ => .node rfl rfl (List.forall_mem_cons.2 ⟨hfirst, hmore⟩)

/-- A pattern and its type become one node if there is a type. -/
theorem returns_annotated (hr : r.Shaped) (start : Nat) {pattern : Tree}
    (hpattern : WellShaped pattern) : Returns WellShaped (annotated r start pattern) := by
  unfold annotated
  refine .skip fun ctx => .ite (fun _ => .skip fun marked => ?_) fun _ => .pure hpattern
  extract_lets typed
  have htyped (optional : Bool) : Returns WellShaped (typed optional) := by
    refine .skip fun _ => .ite (fun _ => ?_) fun _ => .ite (fun _ => ?_) fun _ => .pure hpattern
    · refine .bind hr.type fun type htype => ?_
      exact .finish fun _ => .node rfl rfl (forall_mem_pair.2 ⟨hpattern, htype⟩)
    · exact .finish fun _ => .node rfl rfl (forall_mem_pair.2 ⟨hpattern, wellShaped_absent⟩)
  refine .ite (fun _ => ?_) fun _ => ?_
  · exact .skip fun _ => .skip htyped
  · exact .skip htyped

/-! ### Patterns -/

theorem returns_patternWithDefault (hr : r.Shaped) :
    Returns WellShaped (patternWithDefault r) := by
  unfold patternWithDefault
  refine .skip fun start => .bind hr.pattern fun first hfirst => ?_
  refine .bind (returns_annotated hr start hfirst) fun pattern hpattern => .skip fun _ => ?_
  refine .ite (fun _ => ?_) fun _ => .pure hpattern
  refine .bind (.within hr.assignment) fun value hvalue => ?_
  exact .finish fun _ => .node rfl rfl (forall_mem_pair.2 ⟨hpattern, hvalue⟩)

theorem returns_restPattern (hr : r.Shaped) : Returns WellShaped (restPattern r) := by
  unfold restPattern
  refine .skip fun start => .skip fun _ => .bind hr.pattern fun first hfirst => ?_
  refine .bind (returns_annotated hr start hfirst) fun pattern hpattern => ?_
  exact .finish fun _ => .node rfl rfl (List.forall_mem_singleton.2 hpattern)

theorem returns_arrayPatternItem (hr : r.Shaped) : Returns WellShaped (arrayPatternItem r) := by
  unfold arrayPatternItem
  refine .skip fun _ => .skip fun _ => .ite (fun _ => .pure (.leaf rfl)) fun _ => ?_
  refine .skip fun _ => .ite (fun _ => ?_) fun _ => ?_
  · exact returns_restPattern hr
  · exact returns_patternWithDefault hr

/-- A part of an object pattern: a rest, a key with a pattern, or a name that is both. -/
theorem returns_objectPatternItem (hr : r.Shaped) : Returns WellShaped (objectPatternItem r) := by
  unfold objectPatternItem
  refine .skip fun _ => .ite (fun _ => returns_restPattern hr) fun _ => ?_
  refine .skip fun start => .skip fun t => ?_
  refine .bind (returns_propertyKey hr) fun (key, computed) hkey => .skip fun _ => ?_
  refine .ite (fun _ => ?_) fun _ => ?_
  · refine .bind (returns_patternWithDefault hr) fun value hvalue => ?_
    exact .finish fun _ => .node rfl rfl (forall_mem_pair.2 ⟨hkey, hvalue⟩)
  split
  · refine .skip fun ctx => ?_
    extract_lets binding bound
    have hbinding : WellShaped binding := .leaf rfl
    have hbound (u : Unit) : Returns WellShaped (bound u) := by
      refine .skip fun _ => .ite (fun _ => ?_) fun _ => ?_
      · refine .bind (.within hr.assignment) fun value hvalue => ?_
        refine .bind (.finish (Q := WellShaped) fun _ => ?_) fun pattern hpattern => ?_
        · exact .node rfl rfl (forall_mem_pair.2 ⟨hbinding, hvalue⟩)
        · exact .finish fun _ => .node rfl rfl (forall_mem_pair.2 ⟨hkey, hpattern⟩)
      · exact .finish fun _ => .node rfl rfl (forall_mem_pair.2 ⟨hkey, hbinding⟩)
    exact .ite (fun _ => hbound ()) fun _ => .skip hbound
  · exact .failExpected

/-- A pattern, when the rules at the next depth are shaped. -/
theorem returns_patternRule (hr : r.Shaped) : Returns WellShaped (patternRule r) := by
  unfold patternRule
  refine .skip fun start => .skip fun _ => .ite (fun _ => ?_) fun _ => .skip fun _ => ?_
  · refine .bind (.delimited (returns_arrayPatternItem hr)) fun items hitems => .skip fun _ => ?_
    exact .finish fun _ => .node rfl rfl hitems
  refine .ite (fun _ => ?_) fun _ => ?_
  · refine .bind (.delimited (returns_objectPatternItem hr)) fun items hitems => .skip fun _ => ?_
    exact .finish fun _ => .node rfl rfl hitems
  · exact returns_bindingName.mono fun _ hname => hname.1

/-- The parameters of a function, the last of which may be a rest. -/
theorem returns_parameters (hr : r.Shaped) : Returns WellShaped (parameters r) := by
  unfold parameters
  have hitem : Returns WellShaped
      (do if ← atMark "..." then restPattern r else patternWithDefault r) :=
    .skip fun _ => .ite (fun _ => returns_restPattern hr) fun _ => returns_patternWithDefault hr
  refine .skip fun start => .skip fun _ => .bind (.delimited hitem) fun items hitems => ?_
  exact .skip fun _ => .finish fun _ => .node rfl rfl hitems

end Parser

/-! ### Targets -/

/-- Parentheses have what is inside them for their only child. -/
theorem WellShaped.unparen (h : WellShaped t) : WellShaped t.unparen := by
  induction t with
  | node k s cs ih =>
    by_cases hp : ∃ u, k = .paren ∧ cs = [u]
    · obtain ⟨u, rfl, rfl⟩ := hp
      rw [Tree.unparen_paren]
      have hu : WellShaped u := (wellShaped_node.1 h).2.2 u (List.mem_singleton_self u)
      exact ih u (List.mem_singleton_self u) hu
    · rw [Tree.unparen_node fun u hk hc => hp ⟨u, hk, hc⟩]
      exact h

/-- A target that is no pattern is a reference, a member or an index that is written to. -/
theorem simpleTarget?_wellShaped (h : simpleTarget? t = some u) (ht : WellShaped t) :
    WellShaped u := by
  have hunparen := ht.unparen
  unfold simpleTarget? at h
  split at h
  · obtain rfl := Option.some.inj h
    exact .leaf rfl
  · next heq =>
    obtain rfl := Option.some.inj h
    exact heq ▸ hunparen
  · next heq =>
    obtain rfl := Option.some.inj h
    exact heq ▸ hunparen
  · next heq =>
    obtain rfl := Option.some.inj h
    exact heq ▸ hunparen
  · cases h

/-- The target of an assignment is well shaped if the expression is that it is read from. -/
theorem toTarget?_wellShaped (h : t.toTarget? = some u) (ht : WellShaped t) : WellShaped u := by
  induction t generalizing u with
  | node k s cs ih =>
    obtain ⟨-, hplace, hcs⟩ := wellShaped_node.1 ht
    have hds : ∀ d ∈ cs.map fun t => (t, t.toTarget?),
        WellShaped d.1 ∧ ∀ v, d.2 = some v → WellShaped v := by
      rintro d hd
      obtain ⟨t, ht', rfl⟩ := List.mem_map.1 hd
      exact ⟨hcs t ht', fun v hv => ih t ht' hv (hcs t ht')⟩
    have hwhole : (cs.map fun t => (t, t.toTarget?)).map Prod.fst = cs := by
      rw [List.map_map]
      exact List.map_id cs
    rw [Tree.toTarget?, Tree.fold_node, ← Tree.toTarget?] at h
    generalize (cs.map fun t => (t, t.toTarget?)) = ds at h hds hwhole
    obtain rfl := hwhole
    split at h
    · obtain ⟨ts, hts, rfl⟩ := Option.map_eq_some_iff.1 h
      exact .node rfl rfl (forall_of_mapM_snd hts fun d hd => (hds d hd).2)
    · obtain ⟨ts, hts, rfl⟩ := Option.map_eq_some_iff.1 h
      exact .node rfl rfl (forall_of_mapM_snd hts fun d hd => (hds d hd).2)
    · obtain rfl := Option.some.inj h
      exact ht
    · rw [List.forall_mem_singleton] at hds
      obtain ⟨v, hv, rfl⟩ := Option.map_eq_some_iff.1 h
      exact .node rfl rfl (List.forall_mem_singleton.2 (hds.2 v hv))
    · obtain ⟨v, hv, rfl⟩ := Option.map_eq_some_iff.1 h
      obtain ⟨hkey, hvalue⟩ := forall_mem_pair.1 hds
      exact .node rfl rfl (forall_mem_pair.2 ⟨hkey.1, hvalue.2 v hv⟩)
    · obtain ⟨v, hv, rfl⟩ := Option.map_eq_some_iff.1 h
      obtain ⟨hkey, hvalue⟩ := forall_mem_pair.1 hds
      refine .node rfl ?_ (forall_mem_pair.2 ⟨hkey.1, hvalue.2 v hv⟩)
      simpa [Kind.places, Kind.isMethodForm] using hplace
    · obtain rfl := Option.some.inj h
      obtain ⟨-, hvalue⟩ := forall_mem_pair.1 hds
      refine .node rfl rfl (forall_mem_pair.2 ⟨.leaf rfl, ?_⟩)
      exact .node rfl rfl (forall_mem_pair.2 ⟨.leaf rfl, hvalue.1⟩)
    · obtain rfl := Option.some.inj h
      obtain ⟨htarget, hvalue⟩ := forall_mem_pair.1 hds
      exact .node rfl rfl (forall_mem_pair.2 ⟨htarget.1, hvalue.1⟩)
    · exact simpleTarget?_wellShaped h ht

namespace Parser

theorem returns_assignable (ht : WellShaped t) : Returns WellShaped (assignable t) := by
  unfold assignable
  split
  · next target htarget =>
    exact .ite (fun _ => .pure (toTarget?_wellShaped htarget ht)) fun _ => .fail
  · exact .fail

theorem returns_readable (ht : WellShaped t) : Returns WellShaped (readable t) := by
  unfold readable
  split
  · next target htarget => exact .pure (simpleTarget?_wellShaped htarget ht)
  · exact .fail

end Parser

end CallBridge.Script
