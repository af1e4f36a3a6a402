import CallBridge.Proofs.Script.Operands

/-!
# Arrow functions

A statement ends with the semicolon behind it, so nothing is asked of what follows. Main statement:
a parameter in parentheses, an arrow and statements in braces are read as an arrow function
(`IsExpression.arrow`).
-/

namespace CallBridge.Script

/-- Lexemes that are read as a statement: an expression that begins with the name of a function
that is called, or a `return`. -/
inductive IsStatement : List Lexeme → Tree → Prop where
  | expression {name : String} {more : List Lexeme} {t : Tree} : isKeyword name = false →
      IsExpression (.word name false :: .mark "(" :: more) t →
      IsStatement (.word name false :: .mark "(" :: (more ++ [.mark ";"]))
        (.node .expressionStatement .none [t])
  | returning {ls : List Lexeme} {t : Tree} : IsExpression ls t →
      IsStatement (.word "return" false :: (ls ++ [.mark ";"])) (.node .returning .none [t])

/-- A statement begins with a word that declares no variables. -/
theorem IsStatement.begins {ls : List Lexeme} {t : Tree} (h : IsStatement ls t) :
    ∃ w more, ls = .word w false :: more ∧ w ≠ "var" ∧ w ≠ "const" ∧ w ≠ "let" := by
  cases h with
  | @expression name more _ hname _ =>
    have hne : ∀ w, isKeyword w → name ≠ w := by
      rintro w hw rfl
      rw [hname] at hw
      cases hw
    exact ⟨name, _, rfl, hne "var" (by decide), hne "const" (by decide), hne "let" (by decide)⟩
  | returning _ => exact ⟨"return", _, rfl, by decide, by decide, by decide⟩

namespace Parser

variable {ctx : Context} {r r' : Rules} {ls : List Lexeme} {s : State} {t : Tree} {rest : List Token}

/-- A rule reads lexemes as a statement in front of whatever follows. -/
def ReadsStatement (rule : Parser Tree) (ctx : Context) (ls : List Lexeme) (t : Tree) : Prop :=
  ∀ (s : State) (ts rest : List Token), s.tokens = ts ++ rest → Spells ts ls → rest ≠ [] →
    ∃ u n, Runs rule ctx s u (s.past rest n) ∧ Stands u t

theorem runs_endStatement {semicolon : Token} (htokens : s.tokens = semicolon :: rest)
    (h : semicolon.lexeme = .mark ";") (hne : rest ≠ []) :
    Runs endStatement ctx s () (s.past rest semicolon.span.stop) :=
  .bind (runs_eatMark htokens h hne) (runs_pure ())

theorem runs_variableKind?_none {w : String} (hlexeme : s.lexeme = .word w false)
    (hvar : w ≠ "var") (hconst : w ≠ "const") (hlet : w ≠ "let") :
    Runs variableKind? ctx s none s := by
  have hhead : (s.tokens.headD endToken).lexeme = .word w false := hlexeme
  refine .bind runs_current ?_
  rw [hhead]
  split
  · next heq => exact absurd (Lexeme.word.inj heq).1 hvar
  · next heq => exact absurd (Lexeme.word.inj heq).1 hconst
  · next heq => exact absurd (Lexeme.word.inj heq).1 hlet
  · exact runs_pure none

/-- An expression and the semicolon behind it. -/
theorem runs_fullExpression (h : Reads r.assignment { ctx with allowIn := true } ls t)
    {tokens : List Token} (htokens : s.tokens = tokens ++ rest)
    (hspells : Spells tokens (ls ++ [.mark ";"])) (hne : rest ≠ []) :
    ∃ u s' n, Runs (fullExpression r) ctx s u s' ∧
      Runs endStatement ctx s' () (s.past rest n) ∧ Stands u t := by
  obtain ⟨inside, last, rfl, hinside, hlast⟩ := hspells.split
  obtain ⟨semicolon, others, rfl, hsemicolon, -, hothers⟩ := hlast.cons
  obtain rfl : others = [] := List.map_eq_nil_iff.1 hothers
  have hclosed : Closed (semicolon :: rest) := ⟨semicolon, rest, rfl, by rw [hsemicolon]; rfl⟩
  rw [List.append_assoc] at htokens
  obtain ⟨u, n, hu, hstands⟩ := h s inside (semicolon :: rest) htokens hinside hclosed
  have hcomma : ((s.past (semicolon :: rest) n).lexeme == .mark ",") = false := by
    rw [State.lexeme_eq (s := s.past _ _) rfl, hsemicolon]
    rfl
  have hexpression : Runs (expression r) { ctx with allowIn := true } s u
      (s.past (semicolon :: rest) n) :=
    .bind runs_here (.bind hu (.bind (runs_atMark hcomma) (runs_pure u)))
  exact ⟨u, _, semicolon.span.stop, runs_within hexpression, runs_endStatement rfl hsemicolon hne,
    hstands⟩

/-- A call of a function by its name is a statement. -/
theorem reads_expressionStatement {name : String} {more : List Lexeme}
    (hname : isKeyword name = false)
    (h : Reads r.assignment { ctx with allowIn := true } (.word name false :: .mark "(" :: more) t) :
    ReadsStatement (wordStatement r name) ctx
      (.word name false :: .mark "(" :: (more ++ [.mark ";"]))
      (.node .expressionStatement .none [t]) := by
  intro s tokens rest htokens hspells hne
  have hall : Spells tokens (.word name false :: .mark "(" :: more ++ [.mark ";"]) := hspells
  obtain ⟨u, s', n, hu, hend, hstands⟩ := runs_fullExpression h htokens hall hne
  have hstatement : Runs (expressionStatement r) ctx s
      (.node .expressionStatement ⟨s.start, n⟩ [u]) (s.past rest n) :=
    .bind runs_here (.bind hu (.bind hend (runs_finish _ _ _)))
  obtain ⟨word, _, rfl, -, -, hafter⟩ := hspells.cons
  obtain ⟨paren, others, rfl, hparen, -, -⟩ := hafter.cons
  have hnext : (s.tokens.tail.headD endToken).lexeme = .mark "(" := by
    rw [htokens]
    exact hparen
  refine ⟨_, n, ?_, .node (.cons hstands .nil) (by nofun) ⟨s.start, n⟩⟩
  refine .bind runs_here ?_
  split
  all_goals first
    | exact absurd hname (by decide)
    | skip
  refine .bind runs_next ?_
  simp only [hnext]
  have hfunction : (Lexeme.mark "(" == .word "function" false) = false := rfl
  have hcolon : (Lexeme.mark "(" == .mark ":") = false := rfl
  simp only [hfunction, hcolon, Bool.and_false, Bool.false_and, Bool.false_eq_true, ↓reduceIte]
  exact .bind runs_read hstatement

/-- A `return` inside a function. -/
theorem reads_returnStatement (hfunction : ctx.inFunction) (hls : OpensItem ls)
    (h : Reads r.assignment { ctx with allowIn := true } ls t) :
    ReadsStatement (returnStatement r) ctx (.word "return" false :: (ls ++ [.mark ";"]))
      (.node .returning .none [t]) := by
  intro s tokens rest htokens hspells hne
  obtain ⟨word, others, rfl, -, -, hothers⟩ := hspells.cons
  have hmore : others ++ rest ≠ [] := List.append_ne_nil_of_right_ne_nil _ hne
  obtain ⟨u, s', n, hu, hend, hstands⟩ :=
    runs_fullExpression h (s := s.past (others ++ rest) word.span.stop) rfl hothers hne
  obtain ⟨l, more, rfl, hl, -⟩ := hls
  obtain ⟨head, tail, rfl, hhead, hline, -⟩ := hothers.cons
  have hmiss : ∀ l', closes l' → (l == l') = false := by
    intro l' hl'
    refine beq_false_of_ne ?_
    rintro rfl
    rw [hl] at hl'
    cases hl'
  have hgoes : Runs atStatementEnd ctx (s.past (head :: tail ++ rest) word.span.stop) false
      (s.past (head :: tail ++ rest) word.span.stop) := by
    have hstop : (head.lexeme == .mark ";" || head.lexeme == .mark "\x7d" ||
        head.lexeme == .eof || head.afterNewline) = false := by
      rw [hhead, hline, hmiss _ rfl, hmiss _ rfl, hmiss _ rfl]
      rfl
    rw [← hstop]
    exact .bind runs_current (runs_pure _)
  refine ⟨_, n, ?_, .node (.cons hstands .nil) (by nofun) ⟨s.start, n⟩⟩
  refine .bind runs_here (.bind runs_read ?_)
  simp only [hfunction, Bool.true_or, ↓reduceIte]
  refine .bind (runs_advance htokens hmore) ?_
  refine .bind hgoes ?_
  exact .bind hu (.bind hend (runs_finish _ _ _))

/-- A statement is read where it stands in a function. -/
theorem reads_statement (h : IsStatement ls t) {depth : Nat} (hdepth : 4 * ls.length ≤ depth)
    (hbudget : ls.length < ctx.budget) (htyped : ctx.dialect.typed = false)
    (hfunction : ctx.inFunction) : ReadsStatement (statementRule (rules depth)) ctx ls t := by
  intro s tokens rest htokens hspells hne
  obtain ⟨w, more, rfl, hvar, hconst, hlet⟩ := h.begins
  obtain ⟨word, others, rfl, hword, -, -⟩ := hspells.cons
  have hlexeme : s.lexeme = .word w false := (State.lexeme_eq htokens).trans hword
  have hstatement : ReadsStatement (wordStatement (rules depth) w) ctx (.word w false :: more) t := by
    cases h with
    | expression hname hexpr =>
      simp only [List.length_cons, List.length_append, List.length_nil] at hdepth hbudget
      exact reads_expressionStatement hname (hexpr.reads depth { ctx with allowIn := true }
        (by simp only [List.length_cons]; omega) (by simp only [List.length_cons]; omega) htyped)
    | returning hexpr =>
      simp only [List.length_cons, List.length_append, List.length_nil] at hdepth hbudget
      have hreads := hexpr.reads depth { ctx with allowIn := true } (by omega)
        (by simp only; omega) htyped
      intro s tokens rest htokens hspells hne
      obtain ⟨u, n, hu, hstands⟩ :=
        reads_returnStatement hfunction hexpr.opens hreads s tokens rest htokens hspells hne
      exact ⟨u, n, .bind runs_here hu, hstands⟩
  obtain ⟨u, n, hu, hstands⟩ := hstatement s (word :: others) rest htokens hspells hne
  have hhead : (s.tokens.headD endToken).lexeme = .word w false := hlexeme
  refine ⟨u, n, ?_, hstands⟩
  refine .bind (runs_variableKind?_none hlexeme hvar hconst hlet) (.bind runs_current ?_)
  rw [hhead]
  exact hu

/-- Whether a body goes on: neither at its closing brace nor at the end of the text. -/
theorem runs_bodyGoesOn {b : Bool} (h : (s.lexeme == .mark "\x7d" || s.lexeme == .eof) = b) :
    Runs (do return !((← atMark "\x7d") || (← atEnd))) ctx s (!b) s := by
  rw [← h]
  exact .bind (runs_atMark rfl) (.bind (runs_atEnd rfl) (runs_pure _))

/-- Statements one behind the other up to the closing brace. -/
theorem runs_statements {rule : Parser Tree} {lss : List (List Lexeme)} {ts : List Tree}
    (h : List.Forall₂ IsStatement lss ts)
    (hrule : ∀ ls t, ls ∈ lss → IsStatement ls t → ReadsStatement rule ctx ls t) {budget : Nat}
    (hbudget : lss.length < budget) {tokens : List Token} (htokens : s.tokens = tokens ++ rest)
    (hspells : Spells tokens lss.flatten) (hrest : BeginsWith rest (.mark "\x7d")) :
    ∃ us n, Runs (repeatWhile.loop (do return !((← atMark "\x7d") || (← atEnd))) rule budget) ctx s
      us (s.past rest n) ∧ List.Forall₂ Stands us ts := by
  induction h generalizing budget s tokens with
  | nil =>
    obtain ⟨budget, rfl⟩ := Nat.exists_eq_add_of_lt hbudget
    obtain rfl : tokens = [] := List.map_eq_nil_iff.1 hspells
    obtain ⟨t, others, rfl, ht⟩ := hrest
    rw [List.nil_append] at htokens
    have hstop : (s.lexeme == .mark "\x7d" || s.lexeme == .eof) = true := by
      rw [State.lexeme_eq htokens, ht]
      rfl
    refine ⟨[], s.lastStop, ?_, .nil⟩
    rw [State.past_self htokens]
    exact runs_repeat_stop (runs_bodyGoesOn hstop)
  | @cons ls t lss ts hls _ ih =>
    obtain ⟨budget, rfl⟩ := Nat.exists_eq_succ_of_ne_zero (Nat.ne_zero_of_lt hbudget)
    obtain ⟨first, second, rfl, hfirst, hsecond⟩ := Spells.split hspells
    rw [List.append_assoc] at htokens
    obtain ⟨u, n, hu, hstands⟩ := hrule ls t (List.mem_cons_self ..) hls s first (second ++ rest)
      htokens hfirst (List.append_ne_nil_of_right_ne_nil _ (by
        obtain ⟨t, others, rfl, -⟩ := hrest
        exact List.cons_ne_nil t others))
    obtain ⟨w, more, rfl, -⟩ := hls.begins
    obtain ⟨word, others, rfl, hword, -, -⟩ := hfirst.cons
    have hgo : (s.lexeme == .mark "\x7d" || s.lexeme == .eof) = false := by
      rw [State.lexeme_eq htokens, hword]
      rfl
    obtain ⟨us, n', hus, hall⟩ := ih (fun ls t hmem => hrule ls t (List.mem_cons_of_mem _ hmem))
      (Nat.lt_of_succ_lt_succ hbudget) (s := s.past (second ++ rest) n) rfl hsecond
    exact ⟨u :: us, n', runs_repeat_step (runs_bodyGoesOn hgo) hu hus, .cons hstands hall⟩

/-- No string stands in front of the statements. -/
theorem runs_directives (h : ∀ value raw, s.lexeme ≠ .string value raw) (hbudget : 0 < ctx.budget) :
    Runs (directives r) ctx s ([], none) s := by
  obtain ⟨budget, hsucc⟩ := Nat.exists_eq_add_of_lt hbudget
  refine .bind runs_read ?_
  rw [hsucc]
  refine .bind runs_current ?_
  have hhead : ∀ value raw, (s.tokens.headD endToken).lexeme ≠ .string value raw := h
  split
  · next heq => exact absurd heq (hhead _ _)
  · exact runs_pure _

/-- A body in braces. -/
theorem reads_functionBody {lss : List (List Lexeme)} {ts : List Tree}
    (h : List.Forall₂ IsStatement lss ts)
    (hrule : ∀ ls t, ls ∈ lss → IsStatement ls t → ReadsStatement r.statement ctx ls t)
    (hbudget : lss.length < ctx.budget) :
    ReadsStatement (functionBody r) ctx (.mark "\x7b" :: (lss.flatten ++ [.mark "\x7d"]))
      (.node .body .none ts) := by
  intro s tokens rest htokens hspells hne
  obtain ⟨brace, _, rfl, hbrace, -, hafter⟩ := hspells.cons
  obtain ⟨inside, last, rfl, hinside, hlast⟩ := hafter.split
  obtain ⟨closing, others, rfl, hclosing, -, hothers⟩ := hlast.cons
  obtain rfl : others = [] := List.map_eq_nil_iff.1 hothers
  rw [List.cons_append, List.append_assoc] at htokens
  have hmore : inside ++ ([closing] ++ rest) ≠ [] :=
    List.append_ne_nil_of_right_ne_nil _ (List.cons_ne_nil _ _)
  obtain ⟨us, n, hus, hall⟩ := runs_statements h hrule hbudget
    (s := s.past (inside ++ ([closing] ++ rest)) brace.span.stop) rfl hinside
    ⟨closing, rest, rfl, hclosing⟩
  have hnone : Runs (directives r) ctx (s.past (inside ++ ([closing] ++ rest)) brace.span.stop)
      ([], none) (s.past (inside ++ ([closing] ++ rest)) brace.span.stop) := by
    refine runs_directives (fun value raw => ?_) (Nat.zero_lt_of_lt hbudget)
    cases h with
    | nil =>
      obtain rfl : inside = [] := List.map_eq_nil_iff.1 hinside
      exact fun hstring => absurd (hclosing.symm.trans hstring) nofun
    | cons hls _ =>
      obtain ⟨w, more, rfl, -⟩ := hls.begins
      obtain ⟨word, others, rfl, hword, -, -⟩ := Spells.cons hinside
      exact fun hstring => absurd (hword.symm.trans hstring) nofun
  have hitems : Runs (bodyItems r (do return !((← atMark "\x7d") || (← atEnd)))) ctx
      (s.past (inside ++ ([closing] ++ rest)) brace.span.stop) us (s.past (closing :: rest) n) :=
    .bind hnone (.bind (.bind runs_read hus) (runs_pure _))
  refine ⟨_, closing.span.stop, ?_, .node hall (by nofun) ⟨s.start, closing.span.stop⟩⟩
  refine .bind runs_here (.bind (runs_expectMark htokens hbrace hmore) ?_)
  refine .bind hitems ?_
  exact .bind (runs_expectMark rfl hclosing hne) (runs_finish _ _ _)

/-! ### Parameters -/

/-- A word is a parameter by itself. -/
theorem reads_parameter {p : String} (hp : isKeyword p = false) (htyped : ctx.dialect.typed = false)
    (hpattern : r.pattern = patternRule r') :
    ReadsItem (do if ← atMark "..." then restPattern r else patternWithDefault r) ctx
      [.word p false] (.node (.binding p) .none []) := by
  refine ⟨⟨_, [], rfl, rfl⟩, fun s tokens rest htokens hspells hrest => ?_⟩
  obtain ⟨word, others, rfl, hword, -, hothers⟩ := hspells.cons
  obtain rfl : others = [] := List.map_eq_nil_iff.1 hothers
  have hhead : (s.tokens.headD endToken).lexeme = .word p false := by
    rw [htokens]
    exact hword
  have hmiss : ∀ m, (s.lexeme == .mark m) = false := by
    intro m
    rw [State.lexeme, hhead]
    rfl
  have hname : Runs variableName ctx s p (s.past rest word.span.stop) := by
    refine .bind runs_current ?_
    rw [hhead]
    refine .bind runs_read ?_
    rw [if_pos (canName_of_not_isKeyword hp ctx)]
    exact .bind (runs_advance htokens hrest.ne_nil) (runs_pure p)
  have hbinding : Runs (patternRule r') ctx s (.node (.binding p) ⟨s.start, word.span.stop⟩ [])
      (s.past rest word.span.stop) := by
    refine .bind runs_here ?_
    refine .bind (runs_eatMark_miss (hmiss "[")) ?_
    refine .bind (runs_eatMark_miss (hmiss "\x7b")) ?_
    exact .bind runs_here (.bind hname (runs_finish _ _ _))
  have hannotated : ∀ start pattern s, Runs (annotated r start pattern) ctx s pattern s := by
    intro start pattern s
    refine .bind runs_read ?_
    rw [htyped]
    exact runs_pure pattern
  have hdefault : ((s.past rest word.span.stop).lexeme == .mark "=") = false :=
    closes_ne_mark (Closed.lexeme (s := s.past rest _) hrest) rfl
  refine ⟨_, word.span.stop, ?_, .leaf (by simp) ⟨s.start, word.span.stop⟩⟩
  refine .bind (runs_atMark (hmiss "...")) ?_
  rw [← hpattern] at hbinding
  refine .bind runs_here (.bind hbinding (.bind (hannotated _ _ _) ?_))
  exact .bind (runs_eatMark_miss hdefault) (runs_pure _)

/-- A parameter in parentheses. -/
theorem reads_parameters {p : String} (hp : isKeyword p = false) (htyped : ctx.dialect.typed = false)
    (hpattern : r.pattern = patternRule r') (hbudget : 1 < ctx.budget) :
    ReadsStatement (parameters r) ctx [.mark "(", .word p false, .mark ")"]
      (.node .parameters .none [.node (.binding p) .none []]) := by
  intro s tokens rest htokens hspells hne
  obtain ⟨paren, others, rfl, hparen, -, hothers⟩ := hspells.cons
  have hmore : others ++ rest ≠ [] := List.append_ne_nil_of_right_ne_nil _ hne
  have hcommas : Spells others (commas [[.word p false]] ++ [.mark ")"]) := hothers
  obtain ⟨us, s', n, hus, hclose, hall⟩ := reads_closedList (by decide)
    (.cons (reads_parameter hp htyped hpattern) .nil) hbudget
    (s := s.past (others ++ rest) paren.span.stop) rfl hne hcommas
  refine ⟨_, n, ?_, .node hall (by nofun) ⟨s.start, n⟩⟩
  refine .bind runs_here (.bind (runs_expectMark htokens hparen hmore) ?_)
  exact .bind hus (.bind hclose (runs_finish _ _ _))

end Parser

/-! ### Arrow functions -/

theorem length_le_flatten {lss : List (List Lexeme)} {ls : List Lexeme} (h : ls ∈ lss) :
    ls.length ≤ lss.flatten.length := by
  obtain ⟨before, after, rfl⟩ := List.append_of_mem h
  simp only [List.flatten_append, List.flatten_cons, List.length_append]
  omega

/-- Statements are no more than their lexemes. -/
theorem length_le_length_flatten {lss : List (List Lexeme)} {ts : List Tree}
    (h : List.Forall₂ IsStatement lss ts) : lss.length ≤ lss.flatten.length := by
  induction h with
  | nil => exact Nat.le_refl _
  | cons hls _ ih =>
    obtain ⟨w, more, rfl, -⟩ := hls.begins
    simp only [List.length_cons, List.flatten_cons, List.length_append]
    omega

namespace Parser

/-- A parameter in parentheses and an arrow begin an arrow function. -/
theorem runs_arrowFirst?_parameter {s : State} {paren word closing arrow : Token} {p : String}
    (htokens : s.tokens = paren :: word :: closing :: arrow :: rest)
    (hparen : paren.lexeme = .mark "(") (hword : word.lexeme = .word p false)
    (hclosing : closing.lexeme = .mark ")") (harrow : arrow.lexeme = .mark "=>")
    (hline : arrow.afterNewline = false) :
    Runs (arrowFirst? r) ctx s (some (arrowOfParameters r s.start false)) s := by
  have hfirst : parametersFirst (paren :: word :: closing :: arrow :: rest) := by
    have hmatching : afterMatching 0 (paren :: word :: closing :: arrow :: rest) = arrow :: rest := by
      simp [afterMatching, hparen, hword, hclosing]
    simp [parametersFirst, hparen, hmatching, arrowFirst, harrow, hline]
  refine .bind runs_here (.bind runs_get ?_)
  rw [htokens]
  simp only [hparen, hfirst, ↓reduceIte]
  exact runs_pure _

end Parser

/-- A parameter in parentheses, an arrow and statements in braces. -/
theorem IsExpression.arrow {p : String} (hp : isKeyword p = false) {lss : List (List Lexeme)}
    {ts : List Tree} (h : List.Forall₂ IsStatement lss ts) :
    IsExpression
      (.mark "(" :: .word p false :: .mark ")" :: .mark "=>" :: .mark "\x7b" ::
        (lss.flatten ++ [.mark "\x7d"]))
      (.node (.arrow false) .none
        [.node .parameters .none [.node (.binding p) .none []], .node .body .none ts]) := by
  refine ⟨⟨_, _, rfl, rfl, by simp⟩, fun depth ctx hdepth hbudget htyped => ?_⟩
  have hlength := length_le_length_flatten h
  simp only [List.length_cons, List.length_append, List.length_nil] at hdepth hbudget
  obtain ⟨depth, rfl⟩ := Nat.exists_eq_add_of_le' (show 2 ≤ depth by omega)
  intro s tokens rest htokens hspells hrest
  obtain ⟨paren, _, rfl, hparen, -, h₁⟩ := hspells.cons
  obtain ⟨word, _, rfl, hword, -, h₂⟩ := h₁.cons
  obtain ⟨closing, _, rfl, hclosing, -, h₃⟩ := h₂.cons
  obtain ⟨arrow, body, rfl, harrow, hline, hbody⟩ := h₃.cons
  have hmore : body ++ rest ≠ [] := List.append_ne_nil_of_right_ne_nil _ hrest.ne_nil
  have hhead : Spells [paren, word, closing] [.mark "(", .word p false, .mark ")"] := by
    rw [Spells] at hspells ⊢
    exact congrArg (List.take 3) hspells
  -- The parameters, in front of the arrow.
  have hreads : Parser.ReadsStatement (Parser.parameters (Parser.rules (depth + 1)))
      { ctx with isAsync := ctx.isAsync, allowIn := true } [.mark "(", .word p false, .mark ")"]
      (.node .parameters .none [.node (.binding p) .none []]) :=
    Parser.reads_parameters hp htyped rfl (by simp only; omega)
  obtain ⟨params, n, hparams, hparamsStand⟩ :=
    hreads s _ (arrow :: (body ++ rest)) htokens hhead (List.cons_ne_nil _ _)
  -- The body, whose statements are one depth below.
  have hstatement : ∀ ls t, ls ∈ lss → IsStatement ls t → Parser.ReadsStatement
      (Parser.rules (depth + 1)).statement (Parser.functionContext false false ctx) ls t := by
    intro ls t hmem hls
    have hle := length_le_flatten hmem
    exact Parser.reads_statement hls (by omega) (by simp only [Parser.functionContext]; omega)
      htyped rfl
  obtain ⟨inside, n', hinside, hinsideStands⟩ := Parser.reads_functionBody h hstatement
    (by simp only [Parser.functionContext]; omega)
    ((s.past (arrow :: (body ++ rest)) n).past (body ++ rest) arrow.span.stop) body rest rfl hbody
    hrest.ne_nil
  have hbrace : ((body ++ rest).headD Parser.endToken).lexeme = .mark "\x7b" := by
    obtain ⟨brace, _, rfl, h, -, -⟩ := hbody.cons
    exact h
  refine ⟨_, n', ?_, .node (.cons hparamsStand (.cons hinsideStands .nil)) (by simp) ⟨s.start, n'⟩⟩
  refine .bind (Parser.runs_arrowFirst?_parameter htokens hparen hword hclosing harrow hline) ?_
  refine .bind (Parser.runs_within hparams) ?_
  refine .bind (Parser.runs_expectMark rfl harrow hmore) (.bind Parser.runs_read ?_)
  refine .bind (Parser.runs_atMark (beq_iff_eq.2 hbrace)) ?_
  exact .bind (Parser.runs_within hinside) (Parser.runs_finish _ _ _)

end CallBridge.Script
