import CallBridge.Proofs.Script.Printing.Statements

/-!
# Layouts

A relation that single steps of printing keep is kept by the layout of every kind of node, whatever
the spans of the nodes are. Main statement: it holds between the layouts of two trees that are equal
up to spans (`Congruent.fold`).
-/

namespace CallBridge.Script.Printer.Congruent

variable {R : Doc → Doc → Prop} (h : Congruent R) {ps ps' : List Part}
  (hps : List.Forall₂ (Matches R) ps ps')

include h hps in
/-- The layout of a node keeps what the layouts of its children keep. -/
theorem layout (k : Kind) (s s' : Span) (c : Ctx) : R (layout k s ps c) (layout k s' ps' c) := by
  cases k with
  | reference name => exact h.reference name s s' c
  | target name => exact h.reference name s s' c
  | binding name => exact h.word name
  | key name => exact h.word name
  | privateKey name => exact h.text _
  | string value => exact h.chars _
  | number value => exact h.number value
  | bigint digits => exact h.word _
  | boolean b => exact h.word _
  | null => exact h.word _
  | template quasis => exact h.template hps quasis
  | this => exact h.word _
  | super => exact h.word _
  | metaProperty object property => exact h.word _
  | array => exact h.array hps
  | object => exact h.object hps
  | parameters => exact h.commas (Matches.map_operand hps _)
  | body => exact h.body hps
  | staticBlock => exact h.staticBlock hps
  | sequence => exact h.sequence hps c
  | yield delegate => exact h.yield hps delegate c
  | importCall => exact h.importCall hps c
  | objectPattern => exact h.objectPattern hps
  | arrayPattern => exact h.arrayPattern hps
  | objectTarget => exact h.objectTarget hps
  | arrayTarget => exact h.arrayPattern hps
  | typeName name => exact h.typeName hps name
  | typeLiteral t => exact h.word t
  | typeUnion => exact h.typeUnion hps
  | directive raw => exact h.directive raw
  | block => exact h.block hps s s' c
  | empty => exact h.statementLine s s' c (h.text _)
  | debugger => exact h.simple s s' _ h.nothing c
  | variableList kind => exact h.variableList hps kind s s' c
  | breaking label => exact h.simple s s' _ (h.jumpLabel label) c
  | continuing label => exact h.simple s s' _ (h.jumpLabel label) c
  | importDeclaration source hasList => exact h.importDeclaration hps source hasList s s'
  | importDefault name => exact h.word name
  | importNamespace name => exact h.pair (h.text _) (h.word name)
  | importNamed imported name => exact h.renamed _ _
  | exportList source => exact h.exportList hps source s s'
  | exportNamed name exported => exact h.renamed _ _
  | exportAll source name => exact h.exportAll source name s s'
  | program hashbang => exact h.program hps hashbang s s'
  | absent => exact h.nothing
  | hole => exact h.nothing
  | shorthandDefault => exact h.nothing
  -- Kinds with children of their own in front of the others.
  | call optional =>
    cases hps with
    | nil => exact h.nothing
    | cons hp hrest => exact h.call hp hrest optional c
  | chainCall optional =>
    cases hps with
    | nil => exact h.nothing
    | cons hp hrest => exact h.call hp hrest optional c
  | new =>
    cases hps with
    | nil => exact h.nothing
    | cons hp hrest => exact h.new hp hrest c
  | switch =>
    cases hps with
    | nil => exact h.nothing
    | cons hp hrest => exact h.switch hp hrest s s' c
  | case =>
    cases hps with
    | nil => exact h.nothing
    | cons hp hrest => exact h.case hp hrest
  | classLike isDeclaration =>
    obtain _ | ⟨hp, _ | ⟨hq, hrest⟩⟩ := hps
    · exact h.nothing
    · exact h.nothing
    · exact h.classLike hp hq hrest isDeclaration s s' c
  -- Kinds with one child, two, three and four.
  | spread =>
    obtain _ | ⟨hp, _ | _⟩ := hps
    exacts [h.nothing, h.spread hp, h.nothing]
  | member name optional =>
    obtain _ | ⟨hp, _ | _⟩ := hps
    exacts [h.nothing, h.member hp name optional c, h.nothing]
  | privateMember name optional =>
    obtain _ | ⟨hp, _ | _⟩ := hps
    exacts [h.nothing, h.member hp _ optional c, h.nothing]
  | chain =>
    obtain _ | ⟨hp, _ | _⟩ := hps
    exacts [h.nothing, h.chainElement hp c, h.nothing]
  | unary op =>
    obtain _ | ⟨hp, _ | _⟩ := hps
    exacts [h.nothing, h.unary hp op c, h.nothing]
  | update op isPrefix =>
    obtain _ | ⟨hp, _ | _⟩ := hps
    exacts [h.nothing, h.update hp op isPrefix c, h.nothing]
  | await =>
    obtain _ | ⟨hp, _ | _⟩ := hps
    exacts [h.nothing, h.await hp c, h.nothing]
  | paren =>
    obtain _ | ⟨hp, _ | _⟩ := hps
    exacts [h.nothing, paren hp c, h.nothing]
  | rest =>
    obtain _ | ⟨hp, _ | _⟩ := hps
    exacts [h.nothing, h.rest hp, h.nothing]
  | targetRest =>
    obtain _ | ⟨hp, _ | _⟩ := hps
    exacts [h.nothing, h.rest hp, h.nothing]
  | typeArray =>
    obtain _ | ⟨hp, _ | _⟩ := hps
    exacts [h.nothing, h.pair hp.whole (h.text _), h.nothing]
  | expressionStatement =>
    obtain _ | ⟨hp, _ | _⟩ := hps
    exacts [h.nothing, h.expressionStatement hp s s', h.nothing]
  | returning =>
    obtain _ | ⟨hp, _ | _⟩ := hps
    exacts [h.nothing, h.simple s s' _ (h.spaced hp) c, h.nothing]
  | throwing =>
    obtain _ | ⟨hp, _ | _⟩ := hps
    exacts [h.nothing, h.simple s s' _ (h.spaced hp) c, h.nothing]
  | labeled label =>
    obtain _ | ⟨hp, _ | _⟩ := hps
    exacts [h.nothing, h.labeled hp s s' label, h.nothing]
  | exportDeclaration =>
    obtain _ | ⟨hp, _ | _⟩ := hps
    exacts [h.nothing, h.exportDeclaration hp s s', h.nothing]
  | exportDefault =>
    obtain _ | ⟨hp, _ | _⟩ := hps
    exacts [h.nothing, h.exportDefault hp s s', h.nothing]
  | tagged =>
    obtain _ | ⟨hp, _ | ⟨hq, _ | _⟩⟩ := hps
    exacts [h.nothing, h.nothing, h.pair (hp.operand _) hq.whole, h.nothing]
  | property form computed =>
    obtain _ | ⟨hp, _ | ⟨hq, _ | _⟩⟩ := hps
    exacts [h.nothing, h.nothing, h.property hp hq form computed, h.nothing]
  | arrow isAsync =>
    obtain _ | ⟨hp, _ | ⟨hq, _ | _⟩⟩ := hps
    exacts [h.nothing, h.nothing, h.arrow hp hq isAsync c, h.nothing]
  | method form isStatic computed =>
    obtain _ | ⟨hp, _ | ⟨hq, _ | _⟩⟩ := hps
    exacts [h.nothing, h.nothing, h.methodLine hp hq form isStatic computed, h.nothing]
  | field isStatic computed =>
    obtain _ | ⟨hp, _ | ⟨hq, _ | _⟩⟩ := hps
    exacts [h.nothing, h.nothing, h.fieldLine hp hq isStatic computed, h.nothing]
  | index optional =>
    obtain _ | ⟨hp, _ | ⟨hq, _ | _⟩⟩ := hps
    exacts [h.nothing, h.nothing, h.index hp hq optional c, h.nothing]
  | binary op =>
    obtain _ | ⟨hp, _ | ⟨hq, _ | _⟩⟩ := hps
    exacts [h.nothing, h.nothing, h.binary hp hq op c, h.nothing]
  | assign op =>
    obtain _ | ⟨hp, _ | ⟨hq, _ | _⟩⟩ := hps
    exacts [h.nothing, h.nothing, h.assign hp hq op c, h.nothing]
  | asType =>
    obtain _ | ⟨hp, _ | ⟨hq, _ | _⟩⟩ := hps
    exacts [h.nothing, h.nothing, h.asType hp hq c, h.nothing]
  | patternProperty shorthand computed =>
    obtain _ | ⟨hp, _ | ⟨hq, _ | _⟩⟩ := hps
    exacts [h.nothing, h.nothing, h.patternProperty hp hq computed, h.nothing]
  | withDefault =>
    obtain _ | ⟨hp, _ | ⟨hq, _ | _⟩⟩ := hps
    exacts [h.nothing, h.nothing, h.withDefault hp hq, h.nothing]
  | typed optional =>
    obtain _ | ⟨hp, _ | ⟨hq, _ | _⟩⟩ := hps
    exacts [h.nothing, h.nothing, h.typed hp hq optional, h.nothing]
  | targetProperty shorthand computed =>
    obtain _ | ⟨hp, _ | ⟨hq, _ | _⟩⟩ := hps
    exacts [h.nothing, h.nothing, h.targetProperty hp hq shorthand computed, h.nothing]
  | targetDefault =>
    obtain _ | ⟨hp, _ | ⟨hq, _ | _⟩⟩ := hps
    exacts [h.nothing, h.nothing, h.withDefault hp hq, h.nothing]
  | declarator =>
    obtain _ | ⟨hp, _ | ⟨hq, _ | _⟩⟩ := hps
    exacts [h.nothing, h.nothing, h.declarator hp hq c, h.nothing]
  | whileLoop =>
    obtain _ | ⟨hp, _ | ⟨hq, _ | _⟩⟩ := hps
    exacts [h.nothing, h.nothing, h.whileLoop hp hq s s' c, h.nothing]
  | doWhile =>
    obtain _ | ⟨hp, _ | ⟨hq, _ | _⟩⟩ := hps
    exacts [h.nothing, h.nothing, h.doWhile hp hq s s' c, h.nothing]
  | withScope =>
    obtain _ | ⟨hp, _ | ⟨hq, _ | _⟩⟩ := hps
    exacts [h.nothing, h.nothing, h.withScope hp hq s s' c, h.nothing]
  | handler =>
    obtain _ | ⟨hp, _ | ⟨hq, _ | _⟩⟩ := hps
    exacts [h.nothing, h.nothing, h.handler hp hq, h.nothing]
  | conditional =>
    obtain _ | ⟨hp, _ | ⟨hq, _ | ⟨hr, _ | _⟩⟩⟩ := hps
    exacts [h.nothing, h.nothing, h.nothing, h.conditional hp hq hr c, h.nothing]
  | ifElse =>
    obtain _ | ⟨hp, _ | ⟨hq, _ | ⟨hr, _ | _⟩⟩⟩ := hps
    exacts [h.nothing, h.nothing, h.nothing, h.ifElse hp hq hr s s' c, h.nothing]
  | forIn =>
    obtain _ | ⟨hp, _ | ⟨hq, _ | ⟨hr, _ | _⟩⟩⟩ := hps
    exacts [h.nothing, h.nothing, h.nothing, h.forEach hp hq hr s s' _ _ _ c, h.nothing]
  | forOf isAwait =>
    obtain _ | ⟨hp, _ | ⟨hq, _ | ⟨hr, _ | _⟩⟩⟩ := hps
    exacts [h.nothing, h.nothing, h.nothing, h.forEach hp hq hr s s' _ _ _ c, h.nothing]
  | tryCatch =>
    obtain _ | ⟨hp, _ | ⟨hq, _ | ⟨hr, _ | _⟩⟩⟩ := hps
    exacts [h.nothing, h.nothing, h.nothing, h.tryCatch hp hq hr s s' c, h.nothing]
  | function form =>
    obtain _ | ⟨hp, _ | ⟨hq, _ | ⟨hr, _ | ⟨hv, _ | _⟩⟩⟩⟩ := hps
    exacts [h.nothing, h.nothing, h.nothing, h.nothing,
      h.function (v := _) hq hr hv hp form s s' c, h.nothing]
  | forLoop =>
    obtain _ | ⟨hp, _ | ⟨hq, _ | ⟨hr, _ | ⟨hv, _ | _⟩⟩⟩⟩ := hps
    exacts [h.nothing, h.nothing, h.nothing, h.nothing, h.forLoop hp hq hr hv s s' c, h.nothing]

omit h in
theorem forall₂_of_map_bare {Q : Tree → Tree → Prop} {ts us : List Tree}
    (h : ts.map Tree.bare = us.map Tree.bare) (hQ : ∀ t ∈ ts, ∀ u, t.bare = u.bare → Q t u) :
    List.Forall₂ Q ts us := by
  induction ts generalizing us with
  | nil =>
    obtain rfl : us = [] := List.map_eq_nil_iff.1 h.symm
    exact .nil
  | cons t ts ih =>
    obtain ⟨u, us, rfl, hu, hus⟩ := List.map_eq_cons_iff.1 h.symm
    exact .cons (hQ t (List.mem_cons_self ..) u hu.symm)
      (ih hus.symm fun t ht => hQ t (List.mem_cons_of_mem _ ht))

include h in
/-- The layouts of trees that are equal up to spans are related. -/
theorem fold {t u : Tree} (htu : t.bare = u.bare) (c : Ctx) :
    R (t.fold Printer.layout c) (u.fold Printer.layout c) := by
  induction t generalizing u c with
  | node k s cs ih =>
    obtain ⟨k', s', cs'⟩ := u
    obtain rfl : k = k' := Matches.kind_of_bare htu
    have hmatches : List.Forall₂ (fun t u => Matches R (t, t.fold Printer.layout)
        (u, u.fold Printer.layout)) cs cs' :=
      forall₂_of_map_bare (Matches.children_of_bare htu) fun t ht u hu =>
        ⟨hu, fun c => ih t ht hu c⟩
    rw [Tree.fold_node, Tree.fold_node]
    exact h.layout (List.forall₂_map_left_iff.2 (List.forall₂_map_right_iff.2 hmatches)) k s s' c

end CallBridge.Script.Printer.Congruent
