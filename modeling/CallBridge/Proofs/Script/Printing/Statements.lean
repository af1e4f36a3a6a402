import CallBridge.Proofs.Script.Printing.Functions

/-!
# Layouts of statements

A relation that single steps of printing keep is kept by the layouts of statements, imports and
exports.
-/

namespace CallBridge.Script.Printer.Congruent

variable {R : Doc → Doc → Prop} (h : Congruent R)
  {p p' q q' r r' v v' w w' : Part} {ps ps' : List Part}
  (hp : Matches R p p') (hq : Matches R q q') (hr : Matches R r r') (hv : Matches R v v')
  (hw : Matches R w w') (hps : List.Forall₂ (Matches R) ps ps')

include h

include hp in
/-- Where the statement begins is noted, so that what begins it can be put in parentheses. -/
theorem expressionStatement (s s' : Span) :
    R (expressionStatement s p) (expressionStatement s' p') := by
  have hstart : Notes fun o => { o with statementStart := o.size } := by
    constructor <;> intro o <;> simp [Out.known]
  exact h.markedLine _ _ (h.seq (.cons (h.note hstart) (.cons hp.whole (.cons (h.text _) .nil))))

theorem directive (raw : String) : R (directive raw) (directive raw) :=
  h.seq (.cons h.indent (.cons (h.chars _) (.cons (h.text _) .nil)))

include hps in
/-- A block that is a statement is a line; one that is a part of a statement is not. -/
theorem block (s s' : Span) (c : Ctx) : R (block s ps c) (block s' ps' c) := by
  unfold Printer.block
  rw [isEmpty_eq hps]
  have hinside := h.braces ps'.isEmpty (h.seq (Matches.map_within hps .statement))
  simp only
  split
  · exact h.seq (.cons (h.commentsAt _ _) (.cons h.indent (.cons hinside (.cons h.newline .nil))))
  · exact hinside

include hps in
theorem variableList (kind : VariableKind) (s s' : Span) (c : Ctx) :
    R (variableList kind s ps c) (variableList kind s' ps' c) :=
  h.statementLine _ _ c (h.seq (.cons (h.word _) (.cons (h.text _)
    (.cons (h.commas (Matches.map_within hps _)) (.cons (h.endLine c) .nil)))))

include hp hq in
/-- A declarator without a value is its pattern. -/
theorem declarator (c : Ctx) : R (declarator p q c) (declarator p' q' c) := by
  unfold Printer.declarator
  rw [hq.isAbsent]
  exact h.pair (hp.operand _) (h.onlyIf _ (h.pair (h.text _) (hq.within _)))

/-- Whether a statement ends in an `if` without `else`, from whether its children are absent and end
so. -/
def endsBare (k : Kind) (cs : List (Bool × Bool)) : Bool :=
  match k, cs with
  | .ifElse, [_, _, (absent, ends)] => absent || ends
  | .forLoop, [_, _, _, (_, ends)] => ends
  | .forIn, [_, _, (_, ends)] => ends
  | .forOf _, [_, _, (_, ends)] => ends
  | .whileLoop, [_, (_, ends)] => ends
  | .withScope, [_, (_, ends)] => ends
  | .labeled _, [(_, ends)] => ends
  | _, _ => false

omit h in
/-- Whether a statement ends so goes by the children of its root alone. -/
theorem endsInBareIf_node (k : Kind) (s : Span) (cs : List Tree) :
    endsInBareIf (.node k s cs) = endsBare k (cs.map fun t => (t.isAbsent, endsInBareIf t)) := by
  rw [endsInBareIf, Tree.fold_node]
  cases k <;> try rfl
  all_goals rcases cs with _ | ⟨a, _ | ⟨b, _ | ⟨c, _ | ⟨d, _ | ⟨e, cs⟩⟩⟩⟩⟩ <;> rfl

omit h in
/-- Spans do not matter for how a statement ends. -/
theorem endsInBareIf_bare (t : Tree) : endsInBareIf t.bare = endsInBareIf t := by
  induction t with
  | node k s cs ih =>
    rw [Tree.bare_node, endsInBareIf_node, endsInBareIf_node, List.map_map]
    congr 1
    refine List.map_congr_left fun t ht => ?_
    obtain ⟨k, s, cs⟩ := t
    rw [Function.comp_apply, ih _ ht, Tree.bare_node]
    rfl

omit h in
theorem endsInBareIf_of_bare {t u : Tree} (h : t.bare = u.bare) :
    endsInBareIf t = endsInBareIf u := by
  rw [← endsInBareIf_bare t, h, endsInBareIf_bare]

include hp in
/-- Behind `else` stands another `if`, or a body. -/
theorem alternative : R (alternative p) (alternative p') := by
  unfold Printer.alternative
  rw [hp.kind]
  split
  · exact h.nothing
  · exact h.seq (.cons h.spaceBeforeWord (.cons (h.text _) (.cons (hp.within _) .nil)))
  · exact h.seq (.cons h.spaceBeforeWord (.cons (h.text _) (.cons (h.bodyOf hp) .nil)))

include hp hq hr in
/-- A branch that ends in an `if` without `else` is put in braces, and this goes by the tree without
its spans. -/
theorem ifElse (s s' : Span) (c : Ctx) : R (ifElse s p q r c) (ifElse s' p' q' r' c) := by
  unfold Printer.ifElse
  rw [hr.isAbsent, hq.kind, endsInBareIf_of_bare hq.bare]
  have hbehind : R (if r'.isAbsent then Printer.newline else Printer.text " ")
      (if r'.isAbsent then Printer.newline else Printer.text " ") := by
    split
    · exact h.newline
    · exact h.text _
  refine h.statementLine _ _ c (h.seq (.cons (h.word _) (.cons (h.text _) (.cons hp.whole
    (.cons (h.text _) (.cons ?_ (.cons (h.alternative hr) .nil)))))))
  split
  · exact h.pair (h.blockOf hq) hbehind
  · split
    · exact h.seq (.cons (h.text _) (.cons (h.braces _ (hq.within _)) (.cons hbehind .nil)))
    · exact h.pair (h.bodyOf hq) (h.onlyIf _ h.indent)

include hp hps in
/-- The statements of a case are on one line if there is only one. -/
theorem case : R (case p ps) (case p' ps') := by
  unfold Printer.case
  rw [hp.isAbsent]
  have hlabel : R (if p'.isAbsent then Printer.text "default"
      else Printer.seq [Printer.text "case ", p.whole])
      (if p'.isAbsent then Printer.text "default"
        else Printer.seq [Printer.text "case ", p'.whole]) := by
    split
    · exact h.text _
    · exact h.pair (h.text _) hp.whole
  refine h.seq (.cons h.indent (.cons hlabel (.cons (h.text _) (.cons ?_ .nil))))
  obtain _ | ⟨hq, _ | ⟨hr, hrest⟩⟩ := hps
  · exact h.pair h.newline (h.nested h.nothing)
  · exact h.bodyOf hq
  · exact h.pair h.newline (h.nested (h.seq (Matches.map_within (.cons hq (.cons hr hrest)) _)))

include hp hps in
/-- The cases of a `switch` are lines in braces. -/
theorem switch (s s' : Span) (c : Ctx) : R (switch s p ps c) (switch s' p' ps' c) := by
  unfold Printer.switch
  rw [isEmpty_eq hps]
  exact h.statementLine _ _ c (h.seq (.cons (h.word _) (.cons (h.text _) (.cons hp.whole
    (.cons (h.text _) (.cons (h.braces _ (h.seq (Matches.map_within hps _)))
      (.cons h.newline .nil)))))))

include hp hq hr in
/-- The parts of a `try` that are absent leave nothing. -/
theorem tryCatch (s s' : Span) (c : Ctx) : R (tryCatch s p q r c) (tryCatch s' p' q' r' c) := by
  unfold Printer.tryCatch
  rw [hq.isAbsent, hr.isAbsent]
  exact h.statementLine _ _ c (h.seq (.cons (h.word _) (.cons (h.blockOf hp)
    (.cons (h.onlyIf _ hq.whole) (.cons (h.onlyIf _ (h.pair (h.text _) (h.blockOf hr)))
      (.cons h.newline .nil))))))

include hp hq in
theorem handler : R (handler p q) (handler p' q') := by
  unfold Printer.handler
  rw [hp.isAbsent]
  exact h.seq (.cons (h.text _) (.cons (h.onlyIf _ (h.seq (.cons (h.text _) (.cons hp.whole
    (.cons (h.text _) .nil))))) (.cons (h.blockOf hq) .nil)))

include hp hq hr hv in
theorem forLoop (s s' : Span) (c : Ctx) :
    R (forLoop s p q r v c) (forLoop s' p' q' r' v' c) :=
  h.statementLine _ _ c (h.seq (.cons (h.word _) (.cons (h.text _) (.cons (hp.within _)
    (.cons (h.text _) (.cons (h.spaced hq) (.cons (h.text _) (.cons (h.spaced hr) (.cons (h.text _)
      (.cons (h.bodyOf hv) .nil))))))))))

include hp hq hr in
/-- Both loops over values, with the words that tell them apart. -/
theorem forEach (s s' : Span) (words between : String) (level : Level) (c : Ctx) :
    R (forEach s words between level p q r c) (forEach s' words between level p' q' r' c) :=
  h.statementLine _ _ c (h.seq (.cons (h.word _) (.cons (h.text _) (.cons (hp.within _)
    (.cons (h.text _) (.cons (h.text _) (.cons (h.text _) (.cons (hq.operand _) (.cons (h.text _)
      (.cons (h.bodyOf hr) .nil))))))))))

include hp hq in
theorem whileLoop (s s' : Span) (c : Ctx) : R (whileLoop s p q c) (whileLoop s' p' q' c) :=
  h.statementLine _ _ c (h.seq (.cons (h.word _) (.cons (h.text _) (.cons hp.whole
    (.cons (h.text _) (.cons (h.bodyOf hq) .nil))))))

include hp hq in
/-- A body that is a block is written on the line of the loop. -/
theorem doWhile (s s' : Span) (c : Ctx) : R (doWhile s p q c) (doWhile s' p' q' c) := by
  unfold Printer.doWhile
  rw [hp.kind]
  refine h.statementLine _ _ c (h.seq (.cons (h.word _) (.cons ?_ (.cons (h.text _)
    (.cons hq.whole (.cons (h.text _) .nil))))))
  split
  · exact h.pair (h.blockOf hp) (h.text _)
  · exact h.seq (.cons h.newline (.cons (h.nested (hp.within _)) (.cons h.indent .nil)))

include hp hq in
theorem withScope (s s' : Span) (c : Ctx) : R (withScope s p q c) (withScope s' p' q' c) :=
  h.statementLine _ _ c (h.seq (.cons (h.word _) (.cons (h.text _) (.cons hp.whole
    (.cons (h.text _) (.cons (h.bodyOf hq) .nil))))))

/-- Statements that are a word with something behind it. -/
theorem simple (s s' : Span) (name : String) {d d' : Doc} (hd : R d d') (c : Ctx) :
    R (simple s name d c) (simple s' name d' c) :=
  h.statementLine _ _ c (h.seq (.cons (h.word _) (.cons hd (.cons (h.text _) .nil))))

/-- A label stands behind a blank. -/
theorem jumpLabel (label : Option String) : R (jumpLabel label) (jumpLabel label) := by
  cases label with
  | none => exact h.nothing
  | some l => exact h.pair (h.text _) (h.text _)

include hp in
theorem labeled (s s' : Span) (label : String) :
    R (labeled s label p) (labeled s' label p') :=
  h.markedLine _ _ (h.seq (.cons (h.word _) (.cons (h.text _) (.cons (h.bodyOf hp) .nil))))

/-! ### Imports and exports -/

theorem moduleName (n : ModuleName) : R (moduleName n) (moduleName n) := by
  cases n with
  | name s => exact h.word s
  | quoted t => exact h.chars _

/-- A name that keeps its name is written once. -/
theorem renamed (first second : ModuleName) : R (renamed first second) (renamed first second) := by
  unfold Printer.renamed
  split
  · exact h.moduleName _
  · exact h.seq (.cons (h.moduleName _) (.cons (h.text _) (.cons (h.moduleName _) .nil)))

include hps in
/-- A list of names in braces, without blanks if it is empty. -/
theorem listed : R (listed ps) (listed ps') := by
  unfold Printer.listed
  rw [isEmpty_eq hps]
  split
  · exact h.text _
  · exact h.seq (.cons (h.text _) (.cons (h.commas (Matches.map_whole hps)) (.cons (h.text _)
      .nil)))

theorem sourceString (t : Text) : R (sourceString t) (sourceString t) :=
  h.pair (h.chars _) (h.text _)

omit h in
/-- Filters that agree on related children leave related children. -/
theorem forall₂_filter {f g : Part → Bool} (hfg : ∀ p p', Matches R p p' → f p = g p')
    (hps : List.Forall₂ (Matches R) ps ps') :
    List.Forall₂ (Matches R) (ps.filter f) (ps'.filter g) := by
  induction hps with
  | nil => exact .nil
  | cons hp _ ih =>
    rw [List.filter_cons, List.filter_cons, hfg _ _ hp]
    split
    · exact .cons hp ih
    · exact ih

include hps in
/-- The names of an import are written behind its default, and they are told apart by their kinds.
-/
theorem importClause : R (importClause ps) (importClause ps') := by
  have hnamed : ∀ p p', Matches R p p' → isNamedImport p = isNamedImport p' := by
    intro p p' hp
    unfold isNamedImport
    rw [hp.kind]
  have hlist := forall₂_filter hnamed hps
  have hothers := forall₂_filter (fun p p' hp => congrArg not (hnamed p p' hp)) hps
  unfold Printer.importClause
  simp only [List.partition_eq_filter_filter, Function.comp_def]
  rw [isEmpty_eq hlist, isEmpty_eq hothers]
  refine h.commas (List.rel_append (Matches.map_whole hothers) ?_)
  split
  · exact .nil
  · exact .cons (h.listed hlist) .nil

include hps in
theorem importDeclaration (source : Text) (hasList : Bool) (s s' : Span) :
    R (importDeclaration source hasList s ps) (importDeclaration source hasList s' ps') :=
  h.seq (.cons (h.commentsAt _ _) (.cons h.indent (.cons (h.word _) (.cons (h.text _)
    (.cons (h.onlyIf _ (h.pair (h.importClause hps) (h.text _)))
      (.cons (h.sourceString _) .nil))))))

include hps in
theorem exportList (source : Option Text) (s s' : Span) :
    R (exportList source s ps) (exportList source s' ps') := by
  refine h.seq (.cons (h.commentsAt _ _) (.cons h.indent (.cons (h.text _) (.cons (h.listed hps)
    (.cons ?_ .nil)))))
  cases source with
  | none => exact h.text _
  | some t => exact h.pair (h.text _) (h.sourceString _)

theorem exportAll (source : Text) (name : Option ModuleName) (s s' : Span) :
    R (exportAll source name s) (exportAll source name s') := by
  refine h.seq (.cons (h.commentsAt _ _) (.cons h.indent (.cons (h.text _) (.cons ?_
    (.cons (h.text _) (.cons (h.sourceString _) .nil))))))
  cases name with
  | none => exact h.nothing
  | some n => exact h.pair (h.text _) (h.moduleName _)

include hp in
theorem exportDeclaration (s s' : Span) : R (exportDeclaration s p) (exportDeclaration s' p') :=
  h.seq (.cons (h.commentsAt _ _) (.cons h.indent (.cons (h.text _) (.cons (hp.within _) .nil))))

include hp in
/-- A default that is an expression notes where it begins. -/
theorem exportDefault (s s' : Span) : R (exportDefault s p) (exportDefault s' p') := by
  have hstart : Notes fun o => { o with defaultStart := o.size } := by
    constructor <;> intro o <;> simp [Out.known]
  unfold Printer.exportDefault
  rw [hp.kind]
  refine h.seq (.cons (h.commentsAt _ _) (.cons h.indent (.cons (h.text _) (.cons ?_ .nil))))
  split
  · exact hp.within _
  · exact hp.within _
  · exact h.noted hstart (h.pair (hp.operand _) (h.text _))

include hps in
/-- A file is its first line, if it has one for the system, and the lines of its body. -/
theorem program (hashbang : Option String) (s s' : Span) :
    R (program hashbang s ps) (program hashbang s' ps') := by
  refine h.seq (.cons ?_ (.cons (h.bodyLines hps) (.cons (h.commentsAt _ _) .nil)))
  cases hashbang with
  | none => exact h.nothing
  | some line => exact h.pair (h.text _) h.newline

end CallBridge.Script.Printer.Congruent
