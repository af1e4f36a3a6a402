import CallBridge.Proofs.Script.Operands

/-!
# Object literals

A word or a string in front of a colon is a key, whatever it says: no word is taken for a modifier
there. Main statement: properties and spreads with commas between them in braces are read as an
object literal (`IsExpression.object`).
-/

namespace CallBridge.Script

/-- Lexemes that are a key in front of a colon, with the node of the key. -/
inductive IsKey : Lexeme → Tree → Prop where
  | word (name : String) : IsKey (.word name false) (.node (.key name) .none [])
  | string (value : Text) (raw : String) : IsKey (.string value raw) (.node (.string value) .none [])

/-- Lexemes that are read as an item of an object literal: a key with a value, or a spread. -/
inductive IsMember : List Lexeme → Tree → Prop where
  | property {l : Lexeme} {key t : Tree} {ls : List Lexeme} : IsKey l key → IsExpression ls t →
      IsMember (l :: .mark ":" :: ls) (.node (.property .init false) .none [key, t])
  | spread {ls : List Lexeme} {t : Tree} : IsExpression ls t →
      IsMember (.mark "..." :: ls) (.node .spread .none [t])

theorem IsKey.ne_mark {l : Lexeme} {key : Tree} (h : IsKey l key) (m : String) :
    (l == .mark m) = false := by
  cases h <;> rfl

namespace Parser

variable {ctx : Context} {r : Rules} {ls : List Lexeme} {s : State} {l : Lexeme} {key value : Tree}
  {t u : Token} {rest : List Token}

/-- No word in front of a colon is a modifier. -/
theorem runs_modifies (htokens : s.tokens = t :: u :: rest) (hu : u.lexeme = .mark ":") (w : String)
    (sameLine : Bool) : Runs (modifies w sameLine) ctx s false s := by
  have hnext : s.tokens.tail.headD endToken = u := by
    rw [htokens]
    rfl
  cases hat : s.lexeme == .word w false with
  | false => exact .bind (runs_atWord hat) (runs_pure false)
  | true =>
    refine .bind (runs_atWord hat) (.bind runs_next ?_)
    rw [hnext, hu]
    split
    · exact runs_pure false
    · exact runs_pure false

theorem runs_modifiers (hkey : IsKey l key) (htokens : s.tokens = t :: u :: rest)
    (ht : t.lexeme = l) (hu : u.lexeme = .mark ":") :
    Runs modifiers ctx s ⟨false, false, .method⟩ s := by
  have hstar : (s.lexeme == .mark "*") = false := by
    rw [State.lexeme_eq htokens, ht]
    exact hkey.ne_mark "*"
  refine .bind (runs_modifies htokens hu "async" true) ?_
  refine .bind (runs_eatMark_miss hstar) ?_
  refine .bind (runs_modifies htokens hu "get" false) ?_
  exact .bind (runs_modifies htokens hu "set" false) (runs_pure _)

theorem runs_propertyKey (hkey : IsKey l key) (htokens : s.tokens = t :: rest) (ht : t.lexeme = l)
    (hne : rest ≠ []) :
    ∃ v, Runs (propertyKey r) ctx s (v, false) (s.past rest t.span.stop) ∧ Stands v key := by
  have hhead : (s.tokens.headD endToken).lexeme = l := by rw [htokens, List.headD_cons, ht]
  cases hkey with
  | word name =>
    refine ⟨.node (.key name) ⟨s.start, t.span.stop⟩ [], ?_, .leaf (by nofun) _⟩
    refine .bind runs_current ?_
    rw [hhead]
    exact .bind (runs_advance htokens hne) (.bind (runs_finish _ _ _) (runs_pure _))
  | string text raw =>
    refine ⟨.node (.string text) ⟨s.start, t.span.stop⟩ [], ?_, .leaf (by nofun) _⟩
    refine .bind runs_current ?_
    rw [hhead]
    exact .bind (runs_advance htokens hne) (.bind (runs_finish _ _ _) (runs_pure _))

/-- A key with a value is an item of an object literal. -/
theorem reads_property (hkey : IsKey l key)
    (h : Reads r.assignment { ctx with allowIn := true } ls value) :
    ReadsItem (objectItem r) ctx (l :: .mark ":" :: ls)
      (.node (.property .init false) .none [key, value]) := by
  have hopens : closes l = false := by
    cases hkey <;> rfl
  refine ⟨⟨l, _, rfl, hopens⟩, fun s ts rest htokens hspells hrest => ?_⟩
  obtain ⟨t, _, rfl, ht, -, hmore⟩ := hspells.cons
  obtain ⟨colon, others, rfl, hcolon, -, hothers⟩ := hmore.cons
  have hne : others ++ rest ≠ [] := List.append_ne_nil_of_right_ne_nil _ hrest.ne_nil
  have hdots : (s.lexeme == .mark "...") = false := by
    rw [State.lexeme_eq htokens, ht]
    exact hkey.ne_mark "..."
  obtain ⟨v, hv, hkeyStands⟩ : ∃ v, Runs (propertyKey r) ctx s (v, false)
      (s.past (colon :: (others ++ rest)) t.span.stop) ∧ Stands v key :=
    runs_propertyKey hkey htokens ht (List.cons_ne_nil _ _)
  have hparen : ((s.past (colon :: (others ++ rest)) t.span.stop).lexeme == .mark "(") = false := by
    rw [State.lexeme_eq (s := s.past _ _) rfl, hcolon]
    rfl
  obtain ⟨w, n, hw, hstands⟩ := h ((s.past (colon :: (others ++ rest)) t.span.stop).past
    (others ++ rest) colon.span.stop) others rest rfl hothers hrest
  have hnode : Stands (.node (.property .init false) ⟨s.start, n⟩ [v, w])
      (.node (.property .init false) .none [key, value]) :=
    .node (.cons hkeyStands (.cons hstands .nil)) (by nofun) _
  refine ⟨_, n, ?_, hnode⟩
  refine .bind (runs_atMark hdots) ?_
  refine .bind runs_here ?_
  refine .bind (runs_modifiers hkey htokens ht hcolon) ?_
  refine .bind runs_current ?_
  refine .bind hv ?_
  refine .bind (runs_atMark hparen) ?_
  refine .bind (runs_eatMark rfl hcolon hne) ?_
  exact .bind hw (runs_finish _ _ _)

/-- A spread is an item of an object literal. -/
theorem reads_spread (h : Reads r.assignment { ctx with allowIn := true } ls value) :
    ReadsItem (objectItem r) ctx (.mark "..." :: ls) (.node .spread .none [value]) := by
  refine ⟨⟨_, ls, rfl, rfl⟩, fun s ts rest htokens hspells hrest => ?_⟩
  obtain ⟨dots, others, rfl, hdots, -, hothers⟩ := hspells.cons
  have hne : others ++ rest ≠ [] := List.append_ne_nil_of_right_ne_nil _ hrest.ne_nil
  have hat : (s.lexeme == .mark "...") = true := by
    rw [State.lexeme_eq htokens, hdots]
    rfl
  obtain ⟨w, n, hw, hstands⟩ := h (s.past (others ++ rest) dots.span.stop) others rest rfl hothers
    hrest
  have hnode : Stands (.node .spread ⟨s.start, n⟩ [w]) (.node .spread .none [value]) :=
    .node (.cons hstands .nil) (by nofun) _
  refine ⟨_, n, ?_, hnode⟩
  refine .bind (runs_atMark hat) ?_
  refine .bind (runs_atMark hat) ?_
  refine .bind runs_here ?_
  refine .bind (runs_advance htokens hne) ?_
  exact .bind hw (runs_finish _ _ _)

theorem reads_object {lss : List (List Lexeme)} {ts : List Tree}
    (h : List.Forall₂ (ReadsItem (objectItem r) ctx) lss ts) (hbudget : lss.length < ctx.budget) :
    Reads (primary r) ctx (.mark "\x7b" :: (commas lss ++ [.mark "\x7d"]))
      (.node .object .none ts) := by
  intro s tokens rest htokens hspells hrest
  obtain ⟨brace, others, rfl, hbrace, -, hothers⟩ := hspells.cons
  have hne : others ++ rest ≠ [] := List.append_ne_nil_of_right_ne_nil _ hrest.ne_nil
  have hhead : (s.tokens.headD endToken).lexeme = .mark "\x7b" := by
    rw [htokens, List.cons_append, List.headD_cons, hbrace]
  obtain ⟨us, s', n, hus, hclose, hstands⟩ := reads_closedList (by decide) h hbudget
    (s := s.past (others ++ rest) brace.span.stop) rfl hrest.ne_nil hothers
  have hnode : Stands (.node .object ⟨s.start, n⟩ us) (.node .object .none ts) :=
    .node hstands (by nofun) _
  refine ⟨_, n, ?_, hnode⟩
  refine .bind runs_current ?_
  rw [hhead]
  refine .bind runs_here ?_
  refine .bind (runs_expectMark htokens hbrace hne) ?_
  exact .bind hus (.bind hclose (runs_finish _ _ _))

end Parser

/-- Properties and spreads with commas between them in braces. -/
theorem IsExpression.object {lss : List (List Lexeme)} {ts : List Tree}
    (h : List.Forall₂ IsMember lss ts) :
    IsExpression (.mark "\x7b" :: (commas lss ++ [.mark "\x7d"])) (.node .object .none ts) := by
  refine isExpression_of_primary ⟨_, _, rfl, rfl⟩ nofun fun depth ctx hdepth hbudget htyped => ?_
  have hlength := length_le_length_commas lss
  simp only [List.length_cons, List.length_append, List.length_nil] at hdepth hbudget
  refine Parser.reads_object (forall₂_readsItem h fun ls t hmem hmember => ?_) (by omega)
  have hle := length_le_commas hmem
  cases hmember with
  | property hkey hexpr =>
    simp only [List.length_cons] at hle
    exact Parser.reads_property hkey
      (hexpr.reads depth { ctx with allowIn := true } (by omega) (by simp only; omega) htyped)
  | spread hexpr =>
    simp only [List.length_cons] at hle
    exact Parser.reads_spread
      (hexpr.reads depth { ctx with allowIn := true } (by omega) (by simp only; omega) htyped)

end CallBridge.Script
