import CallBridge.Proofs.Script.Running

/-!
# Operands

From a rule for what stands alone up to a whole expression: no operator follows in front of a token
that closes the expression, so every level of the grammar gives back what the one below has read.
Main statements: what stands alone is an expression, at any depth its lexemes leave room for
(`isExpression_of_primary`), and so are literals, negative numbers and arrays
(`IsExpression.leaf`, `IsExpression.negative`, `IsExpression.array`).
-/

namespace CallBridge.Script

/-! ### How operands begin -/

/-- Lexemes that begin an operand without an operator in front of it, no parenthesis and no word
with a meaning of its own but the literals. -/
def beginsOperand : Lexeme → Bool
  | .word w false => ["null", "true", "false"].contains w || !isKeyword w
  | .string _ _ => true
  | .number _ _ => true
  | .mark m => ["[", "\x7b"].contains m
  | _ => false

variable {l : Lexeme}

theorem beginsOperand_word {w k : String} {escaped : Bool} (h : beginsOperand (.word w escaped))
    (hk : isKeyword k) (hliteral : ["null", "true", "false"].contains k = false) :
    escaped = false ∧ w ≠ k := by
  cases escaped with
  | true => cases h
  | false =>
    refine ⟨rfl, ?_⟩
    rintro rfl
    simp only [beginsOperand, hliteral, hk, Bool.not_true, Bool.or_self] at h
    cases h

/-- No word with a meaning of its own begins an operand but the literals. -/
theorem beginsOperand_ne_word (h : beginsOperand l) {k : String} (hk : isKeyword k)
    (hliteral : ["null", "true", "false"].contains k = false) : (l == .word k false) = false := by
  refine beq_false_of_ne ?_
  rintro rfl
  exact (beginsOperand_word h hk hliteral).2 rfl

theorem beginsOperand_mark {m : String} (h : beginsOperand (.mark m)) : m = "[" ∨ m = "\x7b" := by
  simpa [beginsOperand] using h

theorem unaryOf?_of_beginsOperand (h : beginsOperand l) : unaryOf? l = none := by
  cases l with
  | word w escaped =>
    obtain ⟨rfl, htypeof⟩ := beginsOperand_word h (k := "typeof") (by decide) (by decide)
    obtain ⟨-, hvoid⟩ := beginsOperand_word h (k := "void") (by decide) (by decide)
    obtain ⟨-, hdelete⟩ := beginsOperand_word h (k := "delete") (by decide) (by decide)
    simp [unaryOf?, UnaryOp.all, UnaryOp.isWord, UnaryOp.text, htypeof.symm, hvoid.symm,
      hdelete.symm]
  | mark m =>
    rcases beginsOperand_mark h with rfl | rfl
    · rfl
    · rfl
  | _ => rfl

theorem updateOf?_of_beginsOperand (h : beginsOperand l) : updateOf? l = none := by
  cases l with
  | mark m =>
    rcases beginsOperand_mark h with rfl | rfl
    · rfl
    · rfl
  | _ => rfl

/-- Lexemes of which the first begins an operand. -/
def Begins (ls : List Lexeme) : Prop := ∃ l more, ls = l :: more ∧ beginsOperand l

/-- Lexemes that begin no arrow function and no `yield`: a word stands in front of no arrow. -/
def BeginsPlainly (ls : List Lexeme) : Prop :=
  ∃ l more, ls = l :: more ∧ (beginsOperand l ∨ l = .mark "-") ∧
    ∀ w, l = .word w false → more.head? ≠ some (.mark "=>")

theorem Begins.lexeme {ls : List Lexeme} (h : Begins ls) {s : State} {ts rest : List Token}
    (htokens : s.tokens = ts ++ rest) (hspells : Spells ts ls) : beginsOperand s.lexeme := by
  obtain ⟨l, more, rfl, hl⟩ := h
  obtain ⟨t, others, rfl, ht, -, -⟩ := hspells.cons
  rw [State.lexeme_eq htokens, ht, hl]

/-! ### What follows an operand -/

theorem closes_mark {m : String} (h : closes (.mark m)) :
    m = "," ∨ m = ")" ∨ m = "]" ∨ m = "\x7d" ∨ m = ";" := by
  simpa [closes] using h

/-- No mark stands in front of what closes an expression but those that close it. -/
theorem closes_ne_mark (h : closes l) {m : String} (hm : closes (.mark m) = false) :
    (l == .mark m) = false := by
  refine beq_false_of_ne ?_
  rintro rfl
  rw [hm] at h
  cases h

theorem closes_ne_word (h : closes l) (w : String) : (l == .word w false) = false := by
  refine beq_false_of_ne ?_
  rintro rfl
  cases h

theorem Closed.lexeme {s : State} (h : Closed s.tokens) : closes s.lexeme := by
  obtain ⟨t, more, htokens, ht⟩ := h
  rwa [State.lexeme_eq htokens]

theorem binaryOf?_of_closes (h : closes l) : binaryOf? l = none := by
  cases l with
  | mark m => rcases closes_mark h with rfl | rfl | rfl | rfl | rfl <;> rfl
  | eof => rfl
  | _ => cases h

theorem assignOf?_of_closes (h : closes l) : assignOf? l = none := by
  cases l with
  | mark m => rcases closes_mark h with rfl | rfl | rfl | rfl | rfl <;> rfl
  | eof => rfl
  | _ => cases h

theorem updateOf?_of_closes (h : closes l) : updateOf? l = none := by
  cases l with
  | mark m => rcases closes_mark h with rfl | rfl | rfl | rfl | rfl <;> rfl
  | eof => rfl
  | _ => cases h

namespace Parser

variable {ctx : Context} {r : Rules} {ls : List Lexeme} {t : Tree}

theorem runs_extend_stop {s : State} (h : closes s.lexeme) (start : Nat) (link : Tree × Bool) :
    Runs (extend r start true link) ctx s none s := by
  have htemplate : Runs atTemplate ctx s false s := by
    refine .bind runs_current ?_
    have hl : closes (s.tokens.headD endToken).lexeme := h
    cases hlexeme : (s.tokens.headD endToken).lexeme with
    | template quasi opens closes' =>
      rw [hlexeme] at hl
      cases hl
    | _ => exact runs_pure false
  refine .bind (runs_eatMark_miss (closes_ne_mark h rfl)) ?_
  refine .bind (runs_eatMark_miss (closes_ne_mark h rfl)) ?_
  refine .bind htemplate ?_
  refine .bind (runs_eatMark_miss (closes_ne_mark h rfl)) ?_
  exact .bind (runs_eatMark_miss (closes_ne_mark h rfl)) (runs_pure none)

/-! ### The levels of the grammar -/

/-- No member and no call follows what stands alone. -/
theorem reads_callChain (h : Reads (primary r) ctx ls t) (hls : Begins ls) (hbudget : 0 < ctx.budget) :
    Reads (callChainRule r) ctx ls t := by
  intro s ts rest htokens hspells hrest
  obtain ⟨u, n, hu, hstands⟩ := h s ts rest htokens hspells hrest
  have hnew : (s.lexeme == .word "new" false) = false :=
    beginsOperand_ne_word (hls.lexeme htokens hspells) (by decide) (by decide)
  have hclosed : closes (s.past rest n).lexeme := Closed.lexeme (s := s.past rest n) hrest
  obtain ⟨budget, hsucc⟩ := Nat.exists_eq_add_of_lt hbudget
  have hgrow : ∀ start, Runs (growWhile (extend r start true) (u, false)) ctx (s.past rest n)
      (u, false) (s.past rest n) := by
    intro start
    refine .bind runs_read ?_
    rw [hsucc]
    exact runs_grow_stop (runs_extend_stop hclosed start (u, false))
  refine ⟨u, n, ?_, hstands⟩
  refine .bind runs_here ?_
  refine .bind (.bind (runs_atWord hnew) hu) ?_
  exact .bind (hgrow _) (runs_pure u)

/-- No operator stands in front of an operand or behind it. -/
theorem reads_unary (h : Reads (callChainRule r) ctx ls t) (hls : Begins ls) :
    Reads (unaryRule r) ctx ls t := by
  intro s ts rest htokens hspells hrest
  obtain ⟨u, n, hu, hstands⟩ := h s ts rest htokens hspells hrest
  have hbegins := hls.lexeme htokens hspells
  have hclosed : closes (s.past rest n).lexeme := Closed.lexeme (s := s.past rest n) hrest
  have hawait : Runs awaitFirst ctx s false s :=
    .bind (runs_atWord (beginsOperand_ne_word hbegins (by decide) (by decide))) (runs_pure false)
  have hupdated : Runs (updated r) ctx s u (s.past rest n) := by
    refine .bind runs_here ?_
    refine .bind hu ?_
    refine .bind runs_current ?_
    have hnone : updateOf? ((s.past rest n).tokens.headD endToken).lexeme = none := updateOf?_of_closes hclosed
    rw [hnone]
    exact runs_pure u
  refine ⟨u, n, ?_, hstands⟩
  refine .bind runs_here ?_
  refine .bind runs_current ?_
  have hunary : unaryOf? (s.tokens.headD endToken).lexeme = none := unaryOf?_of_beginsOperand hbegins
  have hupdate : updateOf? (s.tokens.headD endToken).lexeme = none := updateOf?_of_beginsOperand hbegins
  rw [hunary, hupdate]
  exact .bind hawait hupdated

/-- No binary operator follows. -/
theorem reads_operandAbove (h : Reads r.unary ctx ls t) (hbudget : 0 < ctx.budget) (level : Level) :
    Reads (operandAboveRule r level) ctx ls t := by
  intro s ts rest htokens hspells hrest
  obtain ⟨u, n, hu, hstands⟩ := h s ts rest htokens hspells hrest
  have hclosed : closes (s.past rest n).lexeme := Closed.lexeme (s := s.past rest n) hrest
  have hextend : ∀ start, Runs (extendOperand r start level u) ctx (s.past rest n) none
      (s.past rest n) := by
    intro start
    refine .bind runs_current ?_
    refine .bind runs_read ?_
    have has : (((s.past rest n).tokens.headD endToken).lexeme == .word "as" false) = false :=
      closes_ne_word hclosed "as"
    have hnone : binaryOf? ((s.past rest n).tokens.headD endToken).lexeme = none := binaryOf?_of_closes hclosed
    rw [has, hnone]
    simp only [Bool.and_false, Bool.false_and, Bool.false_eq_true, ↓reduceIte]
    exact runs_pure none
  obtain ⟨budget, hsucc⟩ := Nat.exists_eq_add_of_lt hbudget
  refine ⟨u, n, ?_, hstands⟩
  refine .bind runs_here ?_
  refine .bind hu ?_
  refine .bind runs_read ?_
  rw [hsucc]
  exact runs_grow_stop (hextend _)

/-- No question mark follows. -/
theorem reads_conditional (h : Reads (r.operandAbove Level.conditional) ctx ls t) :
    Reads (conditional r) ctx ls t := by
  intro s ts rest htokens hspells hrest
  obtain ⟨u, n, hu, hstands⟩ := h s ts rest htokens hspells hrest
  have hclosed : closes (s.past rest n).lexeme := Closed.lexeme (s := s.past rest n) hrest
  refine ⟨u, n, ?_, hstands⟩
  refine .bind runs_here ?_
  refine .bind hu ?_
  exact .bind (runs_eatMark_miss (closes_ne_mark hclosed rfl)) (runs_pure u)

theorem arrowFirst_append {more : List Lexeme} {others rest : List Token}
    (hothers : Spells others more) (hmore : more.head? ≠ some (.mark "=>")) (hrest : Closed rest) :
    arrowFirst (others ++ rest) = false := by
  cases more with
  | nil =>
    obtain rfl : others = [] := List.map_eq_nil_iff.1 hothers
    obtain ⟨u, after, rfl, hu⟩ := hrest
    rw [List.nil_append, arrowFirst, closes_ne_mark hu rfl, Bool.false_and]
  | cons l more =>
    obtain ⟨u, after, rfl, hu, -, -⟩ := hothers.cons
    have hne : (u.lexeme == .mark "=>") = false := by
      rw [hu]
      exact beq_false_of_ne fun h => hmore (congrArg some h)
    rw [List.cons_append, arrowFirst, hne, Bool.false_and]

theorem runs_arrowFirst?_none (hls : BeginsPlainly ls) {s : State} {ts rest : List Token}
    (htokens : s.tokens = ts ++ rest) (hspells : Spells ts ls) (hrest : Closed rest) :
    Runs (arrowFirst? r) ctx s none s := by
  obtain ⟨l, more, rfl, hl, hmore⟩ := hls
  obtain ⟨t, others, rfl, ht, -, hothers⟩ := hspells.cons
  refine .bind runs_here ?_
  refine .bind runs_get ?_
  rw [htokens, List.cons_append]
  simp only [ht]
  rcases hl with hl | rfl
  · cases l with
    | word w escaped =>
      obtain ⟨rfl, hasync⟩ := beginsOperand_word hl (k := "async") (by decide) (by decide)
      have harrow := arrowFirst_append hothers (hmore w rfl) hrest
      refine .bind runs_read ?_
      simp only [harrow, Bool.false_and, Bool.false_eq_true, ↓reduceIte, beq_false_of_ne hasync]
      exact runs_pure none
    | mark m =>
      rcases beginsOperand_mark hl with rfl | rfl
      · exact runs_pure none
      · exact runs_pure none
    | _ => exact runs_pure none
  · exact runs_pure none

/-- No assignment follows. -/
theorem reads_assignment (h : Reads (r.operandAbove Level.conditional) ctx ls t)
    (hls : BeginsPlainly ls) : Reads (assignmentRule r) ctx ls t := by
  intro s ts rest htokens hspells hrest
  obtain ⟨u, n, hu, hstands⟩ := reads_conditional h s ts rest htokens hspells hrest
  have hclosed : closes (s.past rest n).lexeme := Closed.lexeme (s := s.past rest n) hrest
  have hyield : (s.lexeme == .word "yield" false) = false := by
    obtain ⟨l, more, rfl, hl, -⟩ := hls
    obtain ⟨t, others, rfl, ht, -, -⟩ := hspells.cons
    rw [State.lexeme_eq htokens, ht]
    rcases hl with hl | rfl
    · exact beginsOperand_ne_word hl (by decide) (by decide)
    · rfl
  have hnone : assignOf? ((s.past rest n).tokens.headD endToken).lexeme = none := assignOf?_of_closes hclosed
  refine ⟨u, n, ?_, hstands⟩
  refine .bind (runs_arrowFirst?_none hls htokens hspells hrest) ?_
  refine .bind runs_read ?_
  refine .bind (runs_atWord hyield) ?_
  rw [Bool.and_false]
  refine .bind runs_here ?_
  refine .bind hu ?_
  refine .bind runs_current ?_
  rw [hnone]
  exact runs_pure u

/-! ### What stands alone -/

theorem canName_of_not_isKeyword {w : String} (h : isKeyword w = false) (ctx : Context) :
    canName ctx w false := by
  have hreserved : isReserved w = false := (Bool.or_eq_false_iff.1 h).1
  have hawait : w ≠ "await" := by
    rintro rfl
    exact absurd h (by decide)
  have hyield : w ≠ "yield" := by
    rintro rfl
    exact absurd h (by decide)
  simp [canName, hreserved, hawait, hyield]

end Parser

/-- Lexemes that are an operand by themselves, with the kind of its node. -/
inductive IsLeaf : Lexeme → Kind → Prop where
  | name {w : String} : isKeyword w = false → IsLeaf (.word w false) (.reference w)
  | null : IsLeaf (.word "null" false) .null
  | true : IsLeaf (.word "true" false) (.boolean Bool.true)
  | false : IsLeaf (.word "false" false) (.boolean Bool.false)
  | string (value : Text) (raw : String) : IsLeaf (.string value raw) (.string value)
  | number (value : Number.Magnitude) (whole : Bool) : IsLeaf (.number value whole) (.number value)

theorem IsLeaf.beginsOperand {k : Kind} (h : IsLeaf l k) : beginsOperand l := by
  cases h with
  | name hw => simp [Script.beginsOperand, hw]
  | null | true | false => decide
  | string | number => rfl

theorem IsLeaf.kind_ne {k : Kind} (h : IsLeaf l k) : k ≠ .shorthandDefault := by
  cases h <;> exact nofun

namespace Parser

theorem runs_named {s : State} {t : Token} {rest : List Token} {w : String}
    (hw : isKeyword w = false) (htokens : s.tokens = t :: rest) (hne : rest ≠ []) :
    Runs (wordExpression r w false) ctx s (.node (.reference w) ⟨s.start, t.span.stop⟩ [])
      (s.past rest t.span.stop) := by
  have hnamed : Runs (do
      if canName (← read) w false then do
        advance
        finish s.start (.reference w) []
      else unexpected) ctx s (.node (.reference w) ⟨s.start, t.span.stop⟩ [])
      (s.past rest t.span.stop) := by
    refine .bind runs_read ?_
    rw [if_pos (canName_of_not_isKeyword hw ctx)]
    exact .bind (runs_advance htokens hne) (runs_finish _ _ _)
  refine .bind runs_here ?_
  simp only [Bool.false_eq_true, ↓reduceIte]
  split
  all_goals first
    | exact absurd hw (by decide)
    | exact hnamed

/-- A leaf is taken as its node. -/
theorem runs_primary {k : Kind} (hleaf : IsLeaf l k) {s : State} {t : Token} {rest : List Token}
    (htokens : s.tokens = t :: rest) (ht : t.lexeme = l) (hne : rest ≠ []) :
    Runs (primary r) ctx s (.node k ⟨s.start, t.span.stop⟩ []) (s.past rest t.span.stop) := by
  have hhead : (s.tokens.headD endToken).lexeme = l := by rw [htokens, List.headD_cons, ht]
  have htake : Runs (do
      advance
      finish s.start k []) ctx s (.node k ⟨s.start, t.span.stop⟩ []) (s.past rest t.span.stop) :=
    .bind (runs_advance htokens hne) (runs_finish _ _ _)
  refine .bind runs_current ?_
  rw [hhead]
  cases hleaf with
  | name hw => exact runs_named hw htokens hne
  | null | true | false => exact .bind runs_here htake
  | string | number => exact htake

theorem reads_primary {k : Kind} (hleaf : IsLeaf l k) :
    Reads (primary r) ctx [l] (.node k .none []) := by
  intro s ts rest htokens hspells hrest
  obtain ⟨t, others, rfl, ht, -, hothers⟩ := hspells.cons
  obtain rfl : others = [] := List.map_eq_nil_iff.1 hothers
  exact ⟨_, _, runs_primary hleaf htokens ht hrest.ne_nil, .leaf hleaf.kind_ne _⟩

end Parser

/-! ### Expressions -/

/-- Lexemes that begin an item of a list: they neither close it nor spread anything. -/
def OpensItem (ls : List Lexeme) : Prop :=
  ∃ l more, ls = l :: more ∧ closes l = false ∧ l ≠ .mark "..."

/-- Lexemes that are read as an expression, at any depth that their number leaves room for. -/
structure IsExpression (ls : List Lexeme) (t : Tree) : Prop where
  opens : OpensItem ls
  reads : ∀ depth ctx, 4 * ls.length ≤ depth → ls.length < ctx.budget →
    ctx.dialect.typed = false → Reads (Parser.rules depth).assignment ctx ls t

theorem opensItem_of_beginsOperand {more : List Lexeme} (h : beginsOperand l) :
    OpensItem (l :: more) := by
  refine ⟨l, more, rfl, ?_, ?_⟩
  · cases l with
    | mark m =>
      rcases beginsOperand_mark h with rfl | rfl
      · rfl
      · rfl
    | eof => cases h
    | _ => rfl
  · rintro rfl
    cases h

/-- What has members and calls but no operators is an expression. -/
theorem isExpression_of_callChain {ls : List Lexeme} {t : Tree} (hls : Begins ls)
    (harrow : ∀ w, ls.head? = some (.word w false) → ls.tail.head? ≠ some (.mark "=>"))
    (h : ∀ depth ctx, 4 * ls.length ≤ depth + 3 → ls.length < ctx.budget →
      ctx.dialect.typed = false → Reads (Parser.callChainRule (Parser.rules depth)) ctx ls t) :
    IsExpression ls t := by
  obtain ⟨l, more, rfl, hl⟩ := hls
  refine ⟨opensItem_of_beginsOperand hl, fun depth ctx hdepth hbudget htyped => ?_⟩
  obtain ⟨depth, rfl⟩ := Nat.exists_eq_add_of_le' (show 3 ≤ depth by simp at hdepth; omega)
  have hpositive : 0 < ctx.budget := Nat.zero_lt_of_lt hbudget
  have hunary : Reads (Parser.rules (depth + 1)).unary ctx (l :: more) t :=
    Parser.reads_unary (h depth ctx hdepth hbudget htyped) ⟨l, more, rfl, hl⟩
  have hoperand : Reads ((Parser.rules (depth + 2)).operandAbove Level.conditional) ctx (l :: more) t :=
    Parser.reads_operandAbove hunary hpositive Level.conditional
  exact Parser.reads_assignment hoperand
    ⟨l, more, rfl, Or.inl hl, fun w hw => harrow w (congrArg some hw)⟩

/-- What stands alone is an expression. -/
theorem isExpression_of_primary {ls : List Lexeme} {t : Tree} (hls : Begins ls)
    (harrow : ∀ w, ls.head? = some (.word w false) → ls.tail.head? ≠ some (.mark "=>"))
    (h : ∀ depth ctx, 4 * ls.length ≤ depth + 3 → ls.length < ctx.budget →
      ctx.dialect.typed = false → Reads (Parser.primary (Parser.rules depth)) ctx ls t) :
    IsExpression ls t :=
  isExpression_of_callChain hls harrow fun depth ctx hdepth hbudget htyped =>
    Parser.reads_callChain (h depth ctx hdepth hbudget htyped) hls (Nat.zero_lt_of_lt hbudget)

theorem IsExpression.leaf {k : Kind} (h : IsLeaf l k) : IsExpression [l] (.node k .none []) :=
  isExpression_of_primary ⟨l, [], rfl, h.beginsOperand⟩ (fun _ _ => nofun)
    fun _ _ _ _ _ => Parser.reads_primary h

namespace Parser

theorem reads_negate (h : Reads r.unary ctx ls t) :
    Reads (unaryRule r) ctx (.mark "-" :: ls) (.node (.unary .negate) .none [t]) := by
  intro s ts rest htokens hspells hrest
  obtain ⟨minus, others, rfl, hminus, -, hothers⟩ := hspells.cons
  have hne : others ++ rest ≠ [] := List.append_ne_nil_of_right_ne_nil _ hrest.ne_nil
  have hhead : (s.tokens.headD endToken).lexeme = .mark "-" := by
    rw [htokens, List.cons_append, List.headD_cons, hminus]
  have hop : unaryOf? (.mark "-") = some .negate := rfl
  obtain ⟨u, n, hu, hstands⟩ :=
    h (s.past (others ++ rest) minus.span.stop) others rest rfl hothers hrest
  have hnode : Stands (.node (.unary .negate) ⟨s.start, n⟩ [u]) (.node (.unary .negate) .none [t]) :=
    .node (.cons hstands .nil) (by nofun) _
  refine ⟨_, n, ?_, hnode⟩
  refine .bind runs_here ?_
  refine .bind runs_current ?_
  rw [hhead, hop]
  refine .bind (runs_advance htokens hne) ?_
  exact .bind hu (runs_finish _ _ _)

/-- What is no spread is read as it is where a spread may stand. -/
theorem reads_spreadable (h : Reads r.assignment { ctx with allowIn := true } ls t)
    (hls : OpensItem ls) : ReadsItem (spreadable r) ctx ls t := by
  obtain ⟨l, more, rfl, hl, hdots⟩ := hls
  refine ⟨⟨l, more, rfl, hl⟩, fun s ts rest htokens hspells hrest => ?_⟩
  obtain ⟨u, n, hu, hstands⟩ := h s ts rest htokens hspells hrest
  obtain ⟨head, others, rfl, hhead, -, -⟩ := hspells.cons
  have hat : (s.lexeme == .mark "...") = false := by
    rw [State.lexeme_eq htokens, hhead]
    exact beq_false_of_ne hdots
  exact ⟨u, n, .bind (runs_atMark hat) hu, hstands⟩

theorem reads_arrayItem (h : ReadsItem (spreadable r) ctx ls t) :
    ReadsItem (arrayItem r) ctx ls t := by
  obtain ⟨l, more, rfl, hl⟩ := h.opens
  refine ⟨⟨l, more, rfl, hl⟩, fun s ts rest htokens hspells hrest => ?_⟩
  obtain ⟨u, n, hu, hstands⟩ := h.reads s ts rest htokens hspells hrest
  obtain ⟨head, others, rfl, hhead, -, -⟩ := hspells.cons
  have hmiss : ∀ m, closes (.mark m) → (s.lexeme == .mark m) = false := by
    intro m hm
    rw [State.lexeme_eq htokens, hhead]
    refine beq_false_of_ne ?_
    rintro rfl
    rw [hl] at hm
    cases hm
  refine ⟨u, n, ?_, hstands⟩
  refine .bind (runs_atMark (hmiss "," rfl)) ?_
  exact .bind (runs_atMark (hmiss "]" rfl)) hu

theorem reads_array {lss : List (List Lexeme)} {ts : List Tree}
    (h : List.Forall₂ (ReadsItem (arrayItem r) ctx) lss ts) (hbudget : lss.length < ctx.budget) :
    Reads (primary r) ctx (.mark "[" :: (commas lss ++ [.mark "]"])) (.node .array .none ts) := by
  intro s tokens rest htokens hspells hrest
  obtain ⟨bracket, others, rfl, hbracket, -, hothers⟩ := hspells.cons
  have hne : others ++ rest ≠ [] := List.append_ne_nil_of_right_ne_nil _ hrest.ne_nil
  have hhead : (s.tokens.headD endToken).lexeme = .mark "[" := by
    rw [htokens, List.cons_append, List.headD_cons, hbracket]
  obtain ⟨us, s', n, hus, hclose, hstands⟩ := reads_closedList (by decide) h hbudget
    (s := s.past (others ++ rest) bracket.span.stop) rfl hrest.ne_nil hothers
  have hnode : Stands (.node .array ⟨s.start, n⟩ us) (.node .array .none ts) :=
    .node hstands (by nofun) _
  refine ⟨_, n, ?_, hnode⟩
  refine .bind runs_current ?_
  rw [hhead]
  refine .bind runs_here ?_
  refine .bind (runs_expectMark htokens hbracket hne) ?_
  exact .bind hus (.bind hclose (runs_finish _ _ _))

end Parser

/-! ### Lists of expressions -/

theorem length_le_behindCommas {lss : List (List Lexeme)} {ls : List Lexeme} (h : ls ∈ lss) :
    ls.length ≤ (behindCommas lss).length := by
  obtain ⟨before, after, rfl⟩ := List.append_of_mem h
  simp only [behindCommas, List.flatMap_append, List.flatMap_cons, List.length_append,
    List.length_cons]
  omega

theorem length_le_commas {lss : List (List Lexeme)} {ls : List Lexeme} (h : ls ∈ lss) :
    ls.length ≤ (commas lss).length := by
  cases lss with
  | nil => cases h
  | cons first lss =>
    rw [commas, List.length_append]
    rcases List.mem_cons.1 h with rfl | hmem
    · exact Nat.le_add_right _ _
    · exact Nat.le_trans (length_le_behindCommas hmem) (Nat.le_add_left _ _)

theorem length_le_length_behindCommas (lss : List (List Lexeme)) :
    lss.length ≤ (behindCommas lss).length := by
  induction lss with
  | nil => exact Nat.le_refl _
  | cons ls lss ih =>
    simp only [behindCommas, List.flatMap_cons, List.length_append, List.length_cons] at ih ⊢
    omega

/-- A list has no more items than it has lexemes and one. -/
theorem length_le_length_commas (lss : List (List Lexeme)) : lss.length ≤ (commas lss).length + 1 := by
  cases lss with
  | nil => exact Nat.zero_le _
  | cons ls lss =>
    have h := length_le_length_behindCommas lss
    rw [commas, List.length_append, List.length_cons]
    omega

theorem forall₂_readsItem {item : Parser Tree} {ctx : Context} {p : List Lexeme → Tree → Prop}
    {lss : List (List Lexeme)} {ts : List Tree} (h : List.Forall₂ p lss ts)
    (hitem : ∀ ls t, ls ∈ lss → p ls t → ReadsItem item ctx ls t) :
    List.Forall₂ (ReadsItem item ctx) lss ts := by
  induction h with
  | nil => exact .nil
  | cons h _ ih =>
    exact .cons (hitem _ _ (List.mem_cons_self ..) h)
      (ih fun ls t hmem => hitem ls t (List.mem_cons_of_mem _ hmem))

/-- `-` and a number. -/
theorem IsExpression.negative (x : Number.Magnitude) (whole : Bool) :
    IsExpression [.mark "-", .number x whole]
      (.node (.unary .negate) .none [.node (.number x) .none []]) := by
  have hleaf : IsLeaf (.number x whole) (.number x) := .number x whole
  refine ⟨⟨.mark "-", _, rfl, rfl, nofun⟩, fun depth ctx hdepth hbudget htyped => ?_⟩
  obtain ⟨depth, rfl⟩ := Nat.exists_eq_add_of_le' (show 4 ≤ depth by simp at hdepth; omega)
  have hpositive : 0 < ctx.budget := Nat.zero_lt_of_lt hbudget
  have hbegins : Begins [.number x whole] := ⟨_, [], rfl, hleaf.beginsOperand⟩
  have hinside : Reads (Parser.rules (depth + 1)).unary ctx [.number x whole]
      (.node (.number x) .none []) :=
    Parser.reads_unary (Parser.reads_callChain (Parser.reads_primary hleaf) hbegins hpositive)
      hbegins
  have hunary : Reads (Parser.rules (depth + 2)).unary ctx [.mark "-", .number x whole]
      (.node (.unary .negate) .none [.node (.number x) .none []]) := Parser.reads_negate hinside
  have hoperand : Reads ((Parser.rules (depth + 3)).operandAbove Level.conditional) ctx
      [.mark "-", .number x whole] (.node (.unary .negate) .none [.node (.number x) .none []]) :=
    Parser.reads_operandAbove hunary hpositive Level.conditional
  exact Parser.reads_assignment hoperand ⟨_, _, rfl, Or.inr rfl, fun _ => nofun⟩

/-- Items with commas between them in brackets. -/
theorem IsExpression.array {lss : List (List Lexeme)} {ts : List Tree}
    (h : List.Forall₂ IsExpression lss ts) :
    IsExpression (.mark "[" :: (commas lss ++ [.mark "]"])) (.node .array .none ts) := by
  refine isExpression_of_primary ⟨_, _, rfl, rfl⟩ nofun fun depth ctx hdepth hbudget htyped => ?_
  have hlength := length_le_length_commas lss
  simp only [List.length_cons, List.length_append, List.length_nil] at hdepth hbudget
  refine Parser.reads_array (forall₂_readsItem h fun ls t hmem hexpr => ?_) (by omega)
  have hle := length_le_commas hmem
  exact Parser.reads_arrayItem (Parser.reads_spreadable
    (hexpr.reads depth { ctx with allowIn := true } (by omega) (by simp only; omega) htyped)
    hexpr.opens)

end CallBridge.Script
