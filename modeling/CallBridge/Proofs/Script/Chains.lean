import CallBridge.Proofs.Script.Operands

/-!
# Calls of dotted names

Members are attached one after the other to what stands in front of them, then the arguments. Main
statement: a dotted name from a variable with arguments in parentheses is read as the call of that
path (`IsExpression.call`).
-/

namespace CallBridge.Script

/-- The lexemes of members, a point in front of each. -/
def memberLexemes (members : List String) : List Lexeme :=
  members.flatMap fun m => [.mark ".", .word m false]

/-- Members of an object, one behind the other. -/
def memberTree (object : Tree) (members : List String) : Tree :=
  members.foldl (fun object m => .node (.member m false) .none [object]) object

namespace Parser

variable {ctx : Context} {r : Rules} {s : State} {t u : Tree} {rest : List Token}

/-- A point and a name make a member of what stands in front. -/
theorem runs_extend_member {point name : Token} {m : String} (htokens : s.tokens = point :: name :: rest)
    (hpoint : point.lexeme = .mark ".") (hname : name.lexeme = .word m false) (hne : rest ≠ [])
    (start : Nat) :
    Runs (extend r start true (u, false)) ctx s
      (some (.node (.member m false) ⟨start, name.span.stop⟩ [u], false))
      (s.past rest name.span.stop) := by
  have hmember : Runs (memberName start u false) ctx (s.past (name :: rest) point.span.stop)
      (.node (.member m false) ⟨start, name.span.stop⟩ [u]) (s.past rest name.span.stop) := by
    refine .bind runs_current ?_
    have hhead : ((s.past (name :: rest) point.span.stop).tokens.headD endToken).lexeme =
        .word m false := hname
    rw [hhead]
    exact .bind (runs_advance rfl hne) (runs_finish _ _ _)
  refine .bind (runs_eatMark htokens hpoint (List.cons_ne_nil _ _)) ?_
  exact .bind hmember (runs_pure _)

variable (ctx r) in
/-- Members are attached one after the other. -/
theorem runs_members {members : List String} (hstands : Stands u t) {tokens : List Token}
    (htokens : s.tokens = tokens ++ rest) (hspells : Spells tokens (memberLexemes members))
    (hne : rest ≠ []) (start budget : Nat) :
    ∃ v n, Stands v (memberTree t members) ∧
      ∀ z s', Runs (growWhile.loop (extend r start true) budget (v, false)) ctx (s.past rest n) z s' →
        Runs (growWhile.loop (extend r start true) (members.length + budget) (u, false)) ctx s z s' := by
  induction members generalizing s t u tokens with
  | nil =>
    obtain rfl : tokens = [] := List.map_eq_nil_iff.1 hspells
    refine ⟨u, s.lastStop, hstands, fun z s' hrun => ?_⟩
    rw [List.nil_append] at htokens
    rw [State.past_self htokens] at hrun
    rwa [List.length_nil, Nat.zero_add]
  | cons m members ih =>
    have hmembers : Spells tokens (.mark "." :: .word m false :: memberLexemes members) := hspells
    obtain ⟨point, _, rfl, hpoint, -, hafter⟩ := hmembers.cons
    obtain ⟨name, others, rfl, hname, -, hothers⟩ := hafter.cons
    have hmore : others ++ rest ≠ [] := List.append_ne_nil_of_right_ne_nil _ hne
    have hmember : Stands (.node (.member m false) ⟨start, name.span.stop⟩ [u])
        (.node (.member m false) .none [t]) := .node (.cons hstands .nil) (by nofun) _
    obtain ⟨v, n, hv, hrest⟩ := ih hmember (s := s.past (others ++ rest) name.span.stop) rfl hothers
    refine ⟨v, n, hv, fun z s' hrun => ?_⟩
    rw [List.length_cons, Nat.succ_add]
    exact runs_grow_step (runs_extend_member htokens hpoint hname hmore start) (hrest z s' hrun)

/-- Arguments in parentheses make a call of what stands in front. -/
theorem runs_extend_call {lss : List (List Lexeme)} {ts : List Tree} (hstands : Stands u t)
    (h : List.Forall₂ (ReadsItem (spreadable r) ctx) lss ts) (hbudget : lss.length < ctx.budget)
    {tokens : List Token} (htokens : s.tokens = tokens ++ rest) (hne : rest ≠ [])
    (hspells : Spells tokens (.mark "(" :: (commas lss ++ [.mark ")"]))) (start : Nat) :
    ∃ v n, Runs (extend r start true (u, false)) ctx s (some (v, false)) (s.past rest n) ∧
      Stands v (.node (.call false) .none (t :: ts)) := by
  obtain ⟨paren, others, rfl, hparen, -, hothers⟩ := hspells.cons
  have hmore : others ++ rest ≠ [] := List.append_ne_nil_of_right_ne_nil _ hne
  have hlexeme : s.lexeme = .mark "(" := (State.lexeme_eq htokens).trans hparen
  have hmiss : ∀ m, "(" ≠ m → (s.lexeme == .mark m) = false := by
    intro m hm
    rw [hlexeme]
    exact beq_false_of_ne fun heq => hm (Lexeme.mark.inj heq)
  have htemplate : Runs atTemplate ctx s false s := by
    refine .bind runs_current ?_
    have hhead : (s.tokens.headD endToken).lexeme = .mark "(" := hlexeme
    rw [hhead]
    exact runs_pure false
  obtain ⟨us, s', n, hus, hclose, hall⟩ := reads_closedList (by decide) h hbudget
    (s := s.past (others ++ rest) paren.span.stop) rfl hne hothers
  refine ⟨.node (.call false) ⟨start, n⟩ (u :: us), n, ?_, .node (.cons hstands hall) (by nofun) _⟩
  refine .bind (runs_eatMark_miss (hmiss "." (by decide))) ?_
  refine .bind (runs_eatMark_miss (hmiss "[" (by decide))) ?_
  refine .bind htemplate ?_
  refine .bind (runs_eatMark htokens hparen hmore) ?_
  refine .bind (.bind hus (.bind hclose (runs_pure us))) ?_
  exact .bind (runs_finish _ _ _) (runs_pure _)

/-- A dotted name with arguments in parentheses. -/
theorem reads_call {first : String} (hfirst : isKeyword first = false) {members : List String}
    {lss : List (List Lexeme)} {ts : List Tree}
    (h : List.Forall₂ (ReadsItem (spreadable r) ctx) lss ts)
    (hbudget : members.length + lss.length + 2 ≤ ctx.budget) :
    Reads (callChainRule r) ctx
      (.word first false :: (memberLexemes members ++ .mark "(" :: (commas lss ++ [.mark ")"])))
      (.node (.call false) .none (memberTree (.node (.reference first) .none []) members :: ts)) := by
  intro s tokens rest htokens hspells hrest
  obtain ⟨name, others, rfl, hname, -, hothers⟩ := hspells.cons
  obtain ⟨path, arguments, rfl, hpath, harguments⟩ := hothers.split
  have hleaf : IsLeaf (.word first false) (.reference first) := .name hfirst
  have hmore : arguments ++ rest ≠ [] := List.append_ne_nil_of_right_ne_nil _ hrest.ne_nil
  have hafter : path ++ arguments ++ rest ≠ [] :=
    List.append_ne_nil_of_right_ne_nil _ hrest.ne_nil
  have hnew : (s.lexeme == .word "new" false) = false := by
    rw [State.lexeme_eq htokens, hname]
    exact beginsOperand_ne_word hleaf.beginsOperand (by decide) (by decide)
  have hhead : Runs (primary r) ctx s (.node (.reference first) ⟨s.start, name.span.stop⟩ [])
      (s.past (path ++ arguments ++ rest) name.span.stop) := runs_primary hleaf htokens hname hafter
  -- The members, then the arguments, then what closes the expression.
  obtain ⟨k, hbudget'⟩ := Nat.exists_eq_add_of_le hbudget
  have hloop : ctx.budget = members.length + (lss.length + k + 1 + 1) := by omega
  obtain ⟨v, n, hv, hmembers⟩ := runs_members ctx r
    (Stands.leaf (k := .reference first) (by nofun) ⟨s.start, name.span.stop⟩)
    (s := s.past (path ++ arguments ++ rest) name.span.stop)
    (List.append_assoc path arguments rest) hpath hmore s.start (lss.length + k + 1 + 1)
  obtain ⟨w, n', hcall, hw⟩ := runs_extend_call hv h (by omega)
    (s := s.past (arguments ++ rest) n) rfl hrest.ne_nil harguments s.start
  have hclosed : closes (s.past rest n').lexeme := Closed.lexeme (s := s.past rest n') hrest
  have hgrow := hmembers _ _ (runs_grow_step hcall
    (runs_grow_stop (runs_extend_stop hclosed s.start (w, false))))
  refine ⟨w, n', ?_, hw⟩
  refine .bind runs_here ?_
  refine .bind (.bind (runs_atWord hnew) hhead) ?_
  have hextended : Runs (growWhile (extend r s.start true)
      (.node (.reference first) ⟨s.start, name.span.stop⟩ [], false)) ctx
      (s.past (path ++ arguments ++ rest) name.span.stop) (w, false) (s.past rest n') := by
    refine .bind runs_read ?_
    rw [hloop]
    exact hgrow
  exact .bind hextended (runs_pure w)

end Parser

/-- A dotted name from a variable with arguments in parentheses. -/
theorem IsExpression.call {first : String} (hfirst : isKeyword first = false)
    (members : List String) {lss : List (List Lexeme)} {ts : List Tree}
    (h : List.Forall₂ IsExpression lss ts) :
    IsExpression
      (.word first false :: (memberLexemes members ++ .mark "(" :: (commas lss ++ [.mark ")"])))
      (.node (.call false) .none
        (memberTree (.node (.reference first) .none []) members :: ts)) := by
  have hleaf : IsLeaf (.word first false) (.reference first) := .name hfirst
  have hmembers : (memberLexemes members).length = 2 * members.length := by
    rw [memberLexemes, List.length_flatMap]
    simp [Nat.mul_comm]
  have harrow : (memberLexemes members ++ Lexeme.mark "(" :: (commas lss ++ [.mark ")"])).head? ≠
      some (Lexeme.mark "=>") := by
    cases members with
    | nil => exact fun h => absurd (Option.some.inj h) (show Lexeme.mark "(" ≠ .mark "=>" by decide)
    | cons m members =>
      exact fun h => absurd (Option.some.inj h) (show Lexeme.mark "." ≠ .mark "=>" by decide)
  refine isExpression_of_callChain ⟨_, _, rfl, hleaf.beginsOperand⟩ (fun _ _ => harrow)
    fun depth ctx hdepth hbudget htyped => ?_
  have hlength := length_le_length_commas lss
  simp only [List.length_cons, List.length_append, List.length_nil, hmembers] at hdepth hbudget
  refine Parser.reads_call hfirst (forall₂_readsItem h fun ls t hmem hexpr => ?_) (by omega)
  have hle := length_le_commas hmem
  exact Parser.reads_spreadable
    (hexpr.reads depth { ctx with allowIn := true } (by omega) (by simp only; omega) htyped)
    hexpr.opens

end CallBridge.Script
