import CallBridge.Proofs.Script.Printing.Steps

/-!
# Layouts of expressions

A relation that single steps of printing keep is kept by the layouts of expressions.
-/

namespace CallBridge.Script.Printer.Congruent

variable {R : Doc → Doc → Prop} (h : Congruent R)
  {p p' q q' r r' v v' w w' : Part} {ps ps' : List Part}
  (hp : Matches R p p') (hq : Matches R q q') (hr : Matches R r r') (hv : Matches R v v')
  (hw : Matches R w w') (hps : List.Forall₂ (Matches R) ps ps')

/-- Lists whose elements are related are empty together. -/
theorem isEmpty_eq {α β : Type} {P : α → β → Prop} {as : List α} {bs : List β}
    (h : List.Forall₂ P as bs) : as.isEmpty = bs.isEmpty := by
  cases h <;> rfl

include h

/-- A name is marked with its span, which does not show in the text. -/
theorem reference (name : String) (s s' : Span) (c : Ctx) :
    R (reference name s c) (reference name s' c) :=
  h.seq (.cons h.spaceBeforeWord (.cons (h.mark _ _) (.cons (h.text _) .nil)))

/-- A number may note where it ends, so that a point behind it is kept apart. -/
theorem number (x : Number.Magnitude) : R (number x) (number x) := by
  have hend : Notes fun o => { o with numberEnd := some o.size } := by
    constructor <;> intro o <;> simp [Out.known]
  have hnumber : Printer.number x = fun o =>
      (if takesPoint x then fun o => { o with numberEnd := some o.size } else Printer.nothing)
        (Printer.seq [Printer.spaceBeforeWord, Printer.chars (numberText x)] o) := by
    funext o
    simp only [Printer.number]
    split <;> rfl
  rw [hnumber]
  refine h.chain (h.pair h.spaceBeforeWord (h.chars _)) ?_
  split
  · exact h.note hend
  · exact h.nothing

include hps in
/-- The pieces of a template alternate with its substitutions; the relation goes along both lists.
-/
theorem template (quasis : List Quasi) : R (template quasis ps) (template quasis ps') := by
  have hholes : ∀ {ps ps' : List Part}, List.Forall₂ (Matches R) ps ps' → ∀ qs : List Quasi,
      List.Forall₂ R
        ((ps.zip qs).map fun e => Printer.seq [Printer.text "$\x7b", e.1.whole, Printer.text "\x7d",
          Printer.chars (breakScript e.2.raw.toList)])
        ((ps'.zip qs).map fun e => Printer.seq [Printer.text "$\x7b", e.1.whole,
          Printer.text "\x7d", Printer.chars (breakScript e.2.raw.toList)]) := by
    intro ps ps' hps
    induction hps with
    | nil => exact fun _ => .nil
    | cons hp _ ih =>
      intro qs
      cases qs with
      | nil => exact .nil
      | cons q qs =>
        exact .cons (h.seq (.cons (h.text _) (.cons hp.whole (.cons (h.text _)
          (.cons (h.chars _) .nil))))) (ih qs)
  have hfirst : R (Printer.seq (quasis.head?.toList.map fun q =>
      Printer.chars (breakScript q.raw.toList))) (Printer.seq (quasis.head?.toList.map fun q =>
        Printer.chars (breakScript q.raw.toList))) := by
    cases quasis with
    | nil => exact h.nothing
    | cons q qs => exact h.seq (.cons (h.chars _) .nil)
  exact h.seq (.cons (h.text _) (.cons hfirst (.cons (h.seq (hholes hps _))
    (.cons (h.text _) .nil))))

/-- An item on a line of its own, with a comma in front unless it is the first one. -/
theorem itemLine (first : Bool) {d d' : Doc} (hd : R d d') :
    R (itemLine first d) (itemLine first d') :=
  h.seq (.cons (h.onlyIf _ (h.text _)) (.cons h.newline (.cons h.indent (.cons hd .nil))))

theorem itemLines {ds ds' : List Doc} (hds : List.Forall₂ R ds ds') :
    R (itemLines ds) (itemLines ds') := by
  cases hds with
  | nil => exact h.nothing
  | cons hd hrest =>
    have hlines := List.forall₂_map_left_iff.2 (List.forall₂_map_right_iff.2
      (hrest.imp fun _ _ hd => h.itemLine false hd))
    exact h.seq (.cons (h.nested (h.seq (.cons (h.itemLine true hd) hlines)))
      (.cons h.newline (.cons h.indent .nil)))

include hps in
/-- The elements of an array. Whether there is a comma behind the last one goes by its kind. -/
theorem elements : List.Forall₂ R (elements ps) (elements ps') := by
  have hreverse := List.rel_reverse hps
  unfold Printer.elements
  revert hreverse
  generalize ps.reverse = qs
  generalize ps'.reverse = qs'
  intro hqs
  cases hqs with
  | nil => exact .nil
  | cons hlast hbefore =>
    simp only [hlast.kind]
    exact List.rel_append (Matches.map_operand (List.rel_reverse hbefore) _)
      (.cons (h.pair (hlast.operand _) (h.onlyIf _ (h.text _))) .nil)

include hps in
/-- How many elements an array has decides whether they are written on lines of their own. -/
theorem array : R (array ps) (array ps') := by
  unfold Printer.array
  rw [hps.length_eq]
  refine h.seq (.cons (h.text _) (.cons ?_ (.cons (h.text _) .nil)))
  split
  · exact h.itemLines (h.elements hps)
  · exact h.commas (h.elements hps)

include hps in
/-- An object literal in parentheses where it would begin a statement. -/
theorem object : R (object ps) (object ps') := by
  have hdocs := Matches.map_operand hps Level.comma
  refine h.wrapWhen (b := atStart) (fun _ => rfl)
    (h.seq (.cons (h.text _) (.cons ?_ (.cons (h.text _) .nil))))
  revert hdocs
  generalize ps.map (·.operand Level.comma) = ds
  generalize ps'.map (·.operand Level.comma) = ds'
  intro hdocs
  obtain _ | ⟨hd, _ | ⟨he, hrest⟩⟩ := hdocs
  · exact h.nothing
  · exact h.seq (.cons (h.text _) (.cons hd (.cons (h.text _) .nil)))
  · exact h.itemLines (.cons hd (.cons he hrest))

include hp in
/-- A key is in brackets if it is computed or, by its kind, too large a number. -/
theorem key (computed : Bool) : R (key p computed) (key p' computed) := by
  unfold Printer.key
  rw [hp.kind]
  simp only
  split
  · exact h.seq (.cons (h.text _) (.cons (hp.operand _) (.cons (h.text _) .nil)))
  · exact hp.operand _

include hq in
/-- The words in front of a method are those of its form and of its function. -/
theorem methodWords (form : MethodForm) :
    R (methodWords form q.tree) (methodWords form q'.tree) := by
  unfold Printer.methodWords
  rw [hq.kind]
  extract_lets accessor
  have haccessor : R accessor accessor := by
    cases form with
    | method => exact h.nothing
    | getter => exact h.text _
    | setter => exact h.text _
  split
  · exact h.seq (.cons haccessor (.cons (h.onlyIf _ (h.text _)) (.cons (h.onlyIf _ (h.text _))
      .nil)))
  · exact haccessor

include hp hq in
theorem method (form : MethodForm) (computed : Bool) :
    R (method form p q computed) (method form p' q' computed) :=
  h.seq (.cons (h.methodWords hq form) (.cons (h.key hp computed) (.cons (hq.within _) .nil)))

include hp hq in
/-- Whether a property is written short goes by its form and by the kinds of its key and value. -/
theorem property (form : PropertyForm) (computed : Bool) :
    R (property form computed p q) (property form computed p' q') := by
  have hshort : isShorthand form computed p.tree q.tree =
      isShorthand form computed p'.tree q'.tree := by
    unfold isShorthand
    rw [hp.kind, hq.unparen_kind]
  have hplain : R
      (if isShorthand form computed p.tree q.tree then q.operand Level.comma
        else Printer.seq [Printer.key p computed, Printer.text ": ", q.operand Level.comma])
      (if isShorthand form computed p'.tree q'.tree then q'.operand Level.comma
        else Printer.seq [Printer.key p' computed, Printer.text ": ", q'.operand Level.comma]) := by
    rw [hshort]
    split
    · exact hq.operand _
    · exact h.seq (.cons (h.key hp computed) (.cons (h.text _) (.cons (hq.operand _) .nil)))
  cases form with
  | init => exact hplain
  | shorthand => exact hplain
  | method => exact h.method hp hq _ _
  | getter => exact h.method hp hq _ _
  | setter => exact h.method hp hq _ _

/-- A point behind a number has a blank in front of it. -/
theorem point (optional : Bool) : R (point optional) (point optional) := by
  cases optional with
  | true => exact h.text _
  | false =>
    exact h.branch (b := fun o => o.numberEnd == some o.size) (fun _ => rfl) (h.text " .")
      (h.text ".")

include hp in
theorem member (name : String) (optional : Bool) (c : Ctx) :
    R (member p name optional c) (member p' name optional c) :=
  h.seq (.cons (hp.within _) (.cons (h.point _) (.cons (h.text _) .nil)))

include hp hq in
theorem index (optional : Bool) (c : Ctx) : R (index p q optional c) (index p' q' optional c) :=
  h.seq (.cons (hp.within _) (.cons (h.onlyIf _ (h.text _)) (.cons (h.text _) (.cons hq.whole
    (.cons (h.text _) .nil)))))

include hps in
theorem arguments : R (arguments ps) (arguments ps') :=
  h.seq (.cons (h.text _) (.cons (h.commas (Matches.map_operand hps _)) (.cons (h.text _) .nil)))

include hp hps in
/-- The callee of a call, and its arguments in parentheses. -/
theorem call (optional : Bool) (c : Ctx) : R (call p ps optional c) (call p' ps' optional c) :=
  h.wrap _ (h.seq (.cons (hp.operand _) (.cons (h.onlyIf _ (h.text _))
    (.cons (h.arguments hps) .nil))))

include hp hps in
theorem new (c : Ctx) : R (new p ps c) (new p' ps' c) :=
  h.wrap _ (h.seq (.cons (h.word _) (.cons (h.text _) (.cons (hp.within _)
    (.cons (h.arguments hps) .nil)))))

include hps in
theorem importCall (c : Ctx) : R (importCall ps c) (importCall ps' c) :=
  h.wrap _ (h.pair (h.word _) (h.arguments hps))

include hp in
theorem chainElement (c : Ctx) : R (Printer.chain p c) (Printer.chain p' c) :=
  h.wrap _ (hp.within c)

/-- A sign keeps away from one in front of it that it would be read with. -/
theorem spaceBeforeSign (sign : String) : R (spaceBeforeSign sign) (spaceBeforeSign sign) := by
  let clash (o : Out) : Bool :=
    o.lastUnary.any fun e => e.2 == o.size && (e.1 == "+" && (sign == "+" || sign == "++") ||
      e.1 == "-" && (sign == "-" || sign == "--"))
  have hbranch : Printer.spaceBeforeSign sign =
      fun o => if clash o then Printer.text " " o else Printer.nothing o := by
    funext o
    rcases hlast : o.lastUnary with _ | ⟨last, stop⟩
    · simp only [Printer.spaceBeforeSign, clash, hlast]
      rfl
    · simp only [Printer.spaceBeforeSign, clash, hlast, Option.any_some, Printer.onlyIf]
      split <;> rfl
  rw [hbranch]
  exact h.branch (b := clash) (fun _ => rfl) (h.text _) h.nothing

/-- The sign that was written last is noted for the next one. -/
theorem rememberSign (sign : String) : R (rememberSign sign) (rememberSign sign) :=
  h.note (by constructor <;> intro o <;> simp [Printer.rememberSign, Out.known])

include hp in
/-- An operator that is a word has a blank behind it; a sign is remembered. -/
theorem unary (op : UnaryOp) (c : Ctx) : R (unary op p c) (unary op p' c) := by
  refine h.wrap _ (h.pair ?_ (hp.within _))
  split
  · exact h.pair (h.word _) (h.text _)
  · exact h.seq (.cons (h.spaceBeforeSign _) (.cons (h.text _) (.cons (h.rememberSign _) .nil)))

include hp in
/-- An update in front of its target or behind it. -/
theorem update (op : UpdateOp) (isPrefix : Bool) (c : Ctx) :
    R (update op isPrefix p c) (update op isPrefix p' c) := by
  cases isPrefix with
  | true =>
    exact h.wrap _ (h.seq (.cons (h.spaceBeforeSign _) (.cons (h.text _)
      (.cons (hp.within _) .nil))))
  | false => exact h.wrap _ (h.pair (hp.within _) (h.text _))

include hp hq in
/-- The levels of both operands go by kinds: whether the left one has a sign in front, and whether
logical operators are mixed. -/
theorem binary (op : BinaryOp) (c : Ctx) : R (binary op p q c) (binary op p' q' c) := by
  have hleft : leftLevel op p.tree = leftLevel op p'.tree := by
    unfold leftLevel isPrefixed mixesLogical
    rw [hp.unparen_kind]
  have hright : rightLevel op q.tree = rightLevel op q'.tree := by
    unfold rightLevel mixesLogical
    rw [hq.unparen_kind]
  unfold Printer.binary
  rw [hleft, hright]
  exact h.wrap _ (h.seq (.cons (hp.within _) (.cons (h.text _) (.cons (h.text _) (.cons (h.text _)
    (.cons (hq.within _) .nil))))))

include hp hq hr in
theorem conditional (c : Ctx) : R (conditional p q r c) (conditional p' q' r' c) :=
  h.wrap _ (h.seq (.cons (hp.within _) (.cons (h.text _) (.cons (hq.operand _) (.cons (h.text _)
    (.cons (hr.within _) .nil))))))

include hp hq in
/-- A target that is an object pattern would begin a block where a statement begins. -/
theorem assign (op : AssignOp) (c : Ctx) : R (assign op p q c) (assign op p' q' c) := by
  unfold Printer.assign
  rw [hp.kind]
  exact h.wrapWhen
    (b := fun o => Level.assign ≤ c.level || (atStart o && p'.tree.kind == .objectTarget))
    (fun _ => rfl)
    (h.seq (.cons (hp.operand _) (.cons (h.text _) (.cons (h.text _) (.cons (h.text _)
      (.cons (hq.within _) .nil))))))

include hps in
theorem sequence (c : Ctx) : R (sequence ps c) (sequence ps' c) :=
  h.wrap _ (h.commas (Matches.map_within hps _))

include hp in
theorem await (c : Ctx) : R (await p c) (await p' c) :=
  h.wrap _ (h.seq (.cons (h.word _) (.cons (h.text _) (.cons (hp.within _) .nil))))

include hps in
/-- The operand of a `yield` may be missing. -/
theorem yield (delegate : Bool) (c : Ctx) :
    R (yield delegate ps.head? c) (yield delegate ps'.head? c) := by
  refine h.wrap _ (h.seq (.cons (h.word _) (.cons (h.onlyIf _ (h.text _)) (.cons ?_ .nil))))
  cases hps with
  | nil => exact h.nothing
  | cons hp _ => exact h.pair (h.text _) (hp.operand _)

include hp hq in
theorem asType (c : Ctx) : R (asType p q c) (asType p' q' c) :=
  h.wrap _ (h.seq (.cons (hp.within _) (.cons (h.text _) (.cons hq.whole .nil))))

include hp in
theorem spread : R (spread p) (spread p') := h.pair (h.text _) (hp.operand _)

omit h in
include hp in
/-- Parentheses of the source are kept around functions alone, which their kinds tell. -/
theorem paren (c : Ctx) : R (paren p c) (paren p' c) := by
  unfold Printer.paren
  rw [hp.kind]
  exact hp.within _

end CallBridge.Script.Printer.Congruent
