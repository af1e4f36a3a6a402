import CallBridge.Proofs.Script.Printing.Expressions

/-!
# Layouts of patterns, functions, classes and types

A relation that single steps of printing keep is kept by the layouts of patterns, functions, classes
and types.
-/

namespace CallBridge.Script.Printer.Congruent

variable {R : Doc → Doc → Prop} (h : Congruent R)
  {p p' q q' r r' v v' w w' : Part} {ps ps' : List Part}
  (hp : Matches R p p') (hq : Matches R q q') (hr : Matches R r r') (hv : Matches R v v')
  (hw : Matches R w w') (hps : List.Forall₂ (Matches R) ps ps')

include h

include hps in
/-- An array pattern ends in a comma if its last part is left out. -/
theorem arrayPattern : R (arrayPattern ps) (arrayPattern ps') := by
  unfold Printer.arrayPattern
  extract_lets closing closing'
  have hlast : R closing closing' := by
    dsimp only [closing, closing']
    have hreverse := List.rel_reverse hps
    rw [← List.head?_reverse, ← List.head?_reverse]
    revert hreverse
    generalize ps.reverse = qs
    generalize ps'.reverse = qs'
    intro hqs
    cases hqs with
    | nil => exact h.nothing
    | cons hlast _ =>
      simp only [List.head?_cons, hlast.kind]
      exact h.onlyIf _ (h.text _)
  exact h.seq (.cons (h.text _) (.cons (h.commas (Matches.map_operand hps _)) (.cons hlast
    (.cons (h.text _) .nil))))

include hps in
/-- An object pattern without parts is written without blanks. -/
theorem objectPattern : R (objectPattern ps) (objectPattern ps') := by
  unfold Printer.objectPattern
  rw [isEmpty_eq hps]
  split
  · exact h.text _
  · exact h.seq (.cons (h.text _) (.cons (h.commas (Matches.map_operand hps _)) (.cons (h.text _)
      .nil)))

include hps in
theorem objectTarget : R (objectTarget ps) (objectTarget ps') :=
  h.seq (.cons (h.text _) (.cons (h.commas (Matches.map_operand hps _)) (.cons (h.text _) .nil)))

omit h in
/-- The name that a pattern binds is in its kinds, not in its spans. -/
theorem boundName?_of_bare {t u : Tree} (h : t.bare = u.bare) : boundName? t = boundName? u := by
  obtain ⟨k, s, cs⟩ := t
  obtain ⟨k', s', cs'⟩ := u
  obtain rfl : k = k' := Matches.kind_of_bare h
  have hcs : cs.map Tree.bare = cs'.map Tree.bare := Matches.children_of_bare h
  cases k with
  | binding name => rfl
  | withDefault =>
    cases cs with
    | nil =>
      obtain rfl : cs' = [] := by simpa using hcs.symm
      rfl
    | cons c rest =>
      obtain ⟨c', rest', rfl⟩ : ∃ c' rest', cs' = c' :: rest' := by
        cases cs' with
        | nil => simp at hcs
        | cons c' rest' => exact ⟨c', rest', rfl⟩
      have hc : c.kind = c'.kind := Matches.kind_of_bare (List.cons.inj hcs).1
      obtain ⟨k, s, cs⟩ := c
      obtain ⟨k', s', cs'⟩ := c'
      obtain rfl : k = k' := hc
      cases k <;> rfl
  | _ => rfl

include hp hq in
/-- A part of an object pattern is written short if its key is the name that it binds. -/
theorem patternProperty (computed : Bool) :
    R (patternProperty computed p q) (patternProperty computed p' q') := by
  unfold Printer.patternProperty
  rw [hp.kind, boundName?_of_bare hq.bare]
  simp only
  split
  all_goals
    split
    · exact hq.operand _
    · exact h.seq (.cons (h.key hp computed) (.cons (h.text _) (.cons (hq.operand _) .nil)))

include hp hq in
/-- A part of an object target that is short is its target alone. -/
theorem targetProperty (shorthand computed : Bool) :
    R (targetProperty shorthand computed p q) (targetProperty shorthand computed p' q') := by
  cases shorthand with
  | true => exact hq.operand _
  | false => exact h.seq (.cons (h.key hp computed) (.cons (h.text _) (.cons (hq.operand _) .nil)))

include hp hq in
theorem withDefault : R (withDefault p q) (withDefault p' q') :=
  h.seq (.cons (hp.operand _) (.cons (h.text _) (.cons (hq.operand _) .nil)))

include hp in
theorem rest : R (rest p) (rest p') := h.pair (h.text _) (hp.operand _)

include hp hq in
/-- A type that is absent leaves a question mark at most. -/
theorem typed (optional : Bool) : R (typed optional p q) (typed optional p' q') := by
  unfold Printer.typed
  rw [hq.isAbsent]
  exact h.seq (.cons (hp.operand _) (.cons (h.onlyIf _ (h.text _))
    (.cons (h.onlyIf _ (h.pair (h.text _) hq.whole)) .nil)))

include hps in
/-- The arguments of a type are written if there are any. -/
theorem typeName (name : String) : R (typeName name ps) (typeName name ps') := by
  unfold Printer.typeName
  rw [isEmpty_eq hps]
  exact h.pair (h.word _) (h.onlyIf _ (h.seq (.cons (h.text _) (.cons (h.commas
    (Matches.map_whole hps)) (.cons (h.text _) .nil)))))

include hps in
theorem typeUnion : R (typeUnion ps) (typeUnion ps') :=
  h.separated (h.text _) (Matches.map_whole hps)

include hps in
/-- The first line of a body is put in parentheses if it would be read as a directive: an expression
that is a string. This goes by kinds below the statement. -/
theorem bodyLines : R (bodyLines ps) (bodyLines ps') := by
  cases hps with
  | nil => exact h.nothing
  | @cons p p' rest rest' hp hrest =>
    refine h.seq (.cons ?_ (Matches.map_within hrest _))
    have hplain : R (p.within .statement) (p'.within .statement) := hp.within _
    obtain ⟨t, w⟩ := p
    obtain ⟨t', w'⟩ := p'
    obtain ⟨k, s, cs⟩ := t
    obtain ⟨k', s', cs'⟩ := t'
    obtain rfl : k = k' := hp.kind
    have hcs : cs.map Tree.bare = cs'.map Tree.bare := Matches.children_of_bare hp.bare
    simp only [Part.tree]
    cases k with
    | expressionStatement =>
      obtain _ | ⟨c, _ | ⟨d, cs⟩⟩ := cs <;> obtain _ | ⟨c', _ | ⟨d', cs'⟩⟩ := cs' <;> simp at hcs
      · exact hplain
      · simp only [Matches.kind_of_bare (Matches.unparen_of_bare hcs)]
        split
        · exact h.seq (.cons (h.text _) (.cons (h.chars _) (.cons (h.text _) .nil)))
        · exact hplain
      · exact hplain
    | _ => exact hplain

include hps in
theorem body : R (body ps) (body ps') := by
  unfold Printer.body
  rw [isEmpty_eq hps]
  exact h.braces _ (h.bodyLines hps)

include hp hq hr in
/-- The parts of a signature that are absent leave nothing. -/
theorem signature : R (signature p q r) (signature p' q' r') := by
  unfold Printer.signature
  rw [hq.isAbsent, hr.isAbsent]
  exact h.seq (.cons (h.text _) (.cons hp.whole (.cons (h.text _)
    (.cons (h.onlyIf _ (h.pair (h.text _) hq.whole))
      (.cons (h.onlyIf _ (h.pair (h.text _) hr.whole)) .nil)))))

include hv hp hq hr in
/-- The layout of a function: the value of a method has no word in front, a declaration is a line,
and an expression is in parentheses where a declaration would begin. -/
theorem function (form : FunctionForm) (s s' : Span) (c : Ctx) :
    R (function form s v p q r c) (function form s' v' p' q' r' c) := by
  have hwords : R (functionWords form v p q r) (functionWords form v' p' q' r') := by
    unfold functionWords
    rw [hv.isAbsent]
    exact h.seq (.cons h.spaceBeforeWord (.cons (h.onlyIf _ (h.text _)) (.cons (h.text _)
      (.cons (h.onlyIf _ (h.text _)) (.cons (h.onlyIf _ (h.pair h.spaceBeforeWord hv.whole))
        (.cons (h.signature hp hq hr) .nil))))))
  unfold Printer.function
  simp only
  split
  · exact h.signature hp hq hr
  · split
    · exact h.statementLine _ _ c (h.pair hwords h.newline)
    · exact h.wrapWhen (b := fun o => c.forced || atDeclaration o) (fun _ => rfl) hwords

include hp hq in
/-- The body of an arrow function that is an expression notes where it begins. -/
theorem arrow (isAsync : Bool) (c : Ctx) : R (arrow isAsync p q c) (arrow isAsync p' q' c) := by
  have hstart : Notes fun o => { o with arrowStart := o.size } := by
    constructor <;> intro o <;> simp [Out.known]
  unfold Printer.arrow
  rw [hq.kind]
  refine h.wrap _ (h.seq (.cons (h.onlyIf _ (h.word _)) (.cons (h.text _) (.cons hp.whole
    (.cons (h.text _) (.cons ?_ .nil))))))
  split
  · exact hq.whole
  · exact h.noted hstart (hq.within _)

include hp in
theorem memberLine : R (memberLine p) (memberLine p') := h.pair h.indent (hp.within _)

include hp hq hps in
/-- A class is a line or an expression, as a function is, with its members on lines of their own. -/
theorem classLike (isDeclaration : Bool) (s s' : Span) (c : Ctx) :
    R (classLike isDeclaration s p q ps c) (classLike isDeclaration s' p' q' ps' c) := by
  have hmembers : List.Forall₂ R (ps.map Printer.memberLine) (ps'.map Printer.memberLine) :=
    List.forall₂_map_left_iff.2 (List.forall₂_map_right_iff.2
      (hps.imp fun _ _ hp => h.memberLine hp))
  have hwords : R (classWords p q ps) (classWords p' q' ps') := by
    unfold classWords
    rw [hp.isAbsent, hq.isAbsent, isEmpty_eq hps]
    exact h.seq (.cons (h.word _) (.cons (h.onlyIf _ (h.pair (h.text _) hp.whole))
      (.cons (h.onlyIf _ (h.pair (h.text _) (hq.operand _))) (.cons (h.text _)
        (.cons (h.braces _ (h.seq hmembers)) .nil)))))
  unfold Printer.classLike
  simp only
  split
  · exact h.statementLine _ _ c (h.pair hwords h.newline)
  · exact h.wrapWhen (b := atDeclaration) (fun _ => rfl) hwords

include hp hq in
theorem methodLine (form : MethodForm) (isStatic computed : Bool) :
    R (methodLine form isStatic computed p q) (methodLine form isStatic computed p' q') :=
  h.seq (.cons (h.onlyIf _ (h.text _)) (.cons (h.method hp hq form computed)
    (.cons h.newline .nil)))

include hp hq in
/-- A field without a value ends behind its key. -/
theorem fieldLine (isStatic computed : Bool) :
    R (fieldLine isStatic computed p q) (fieldLine isStatic computed p' q') := by
  unfold Printer.fieldLine
  rw [hq.isAbsent]
  exact h.seq (.cons (h.onlyIf _ (h.text _)) (.cons (h.key hp computed)
    (.cons (h.onlyIf _ (h.pair (h.text _) (hq.operand _))) (.cons (h.text _) .nil))))

include hps in
theorem staticBlock : R (staticBlock ps) (staticBlock ps') := by
  unfold Printer.staticBlock
  rw [isEmpty_eq hps]
  exact h.seq (.cons (h.text _) (.cons (h.braces _ (h.seq (Matches.map_within hps _)))
    (.cons h.newline .nil)))

end CallBridge.Script.Printer.Congruent
