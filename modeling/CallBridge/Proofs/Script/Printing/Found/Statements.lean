import CallBridge.Proofs.Script.Printing.Found.Functions

/-!
# Children found in statements

The layouts of statements lead to what is looked for when that of a child does. Where a statement or
a list of them stands in another one, its layout begins behind a text of that one.
-/

namespace CallBridge.Script.Printer

variable {S : Out → Prop} (hS : Lasting S) {f : Front} {t u v w : Tree} {ts : List Tree} {c : Ctx}
  {s : Span}

/-! ### Steps that take nothing back -/

/-- The layouts of parts of statements take nothing back, since no layout does. -/
@[simp] theorem Grows.bodyOf (t : Tree) : Grows (bodyOf (part t)) :=
  (congruent_grows.bodyOf (matches_part t)).1

@[simp] theorem Grows.blockOf (t : Tree) : Grows (blockOf (part t)) :=
  (congruent_grows.blockOf (matches_part t)).1

@[simp] theorem Grows.spaced (t : Tree) : Grows (spaced (part t)) :=
  (congruent_grows.spaced (matches_part t)).1

@[simp] theorem Grows.alternative (t : Tree) : Grows (alternative (part t)) :=
  (congruent_grows.alternative (matches_part t)).1

include hS

/-! ### Bodies of statements -/

/-- What is seen is no empty statement, so it is printed as the body that it is. -/
theorem leads_bodyOf (h : Seen S t) : Leads Out.Open (bodyOf (part t)) S := by
  unfold bodyOf
  split
  · exact .ofOpen (.step (settles_text " " (by decide)) (.here hS (h.found _) (by simp)))
  · next hempty =>
    have hinner := h.inner
    rw [show t.kind = _ from hempty] at hinner
    cases hinner
  · exact fun o ho => h.found _ _ ⟨ho.sound, ho.head⟩

omit hS in
/-- A block behind a blank is found there. -/
theorem leads_blockOf (h : Found S t) : Leads Out.Sound (blockOf (part t)) S :=
  .step (settles_text " " (by decide)) (.last (h _))

omit hS in
/-- What is seen is not absent, so it is printed behind a blank. -/
theorem leads_spaced (h : Seen S t) : Leads Out.Sound (spaced (part t)) S :=
  .when (by simp [h.isAbsent]) (.step (settles_text " " (by decide)) (.last h.found.whole))

/-! ### Simple statements -/

/-- An expression begins its line, behind whatever ended the line before. -/
theorem leads_expressionStatement (h : Found S t) :
    Leads Out.Open (expressionStatement s (part t)) S := by
  have hstart : Leads Out.Open (fun o => { o with statementStart := o.size }) Out.Open :=
    fun o ho => ⟨ho.sound, ho.head⟩
  exact leads_markedLine (.step hstart (.here hS h.whole (by simp))) s

/-- The lines of a block stand behind its brace. -/
theorem leads_block (hlines : ∀ t ∈ ts, Settles ((part t).within .statement)) (h : FoundIn S ts) :
    Leads Out.Sound (block s (ts.map part) c) S := by
  have hinside := leads_braces hS h (leads_lines hS hlines h)
  unfold block
  dsimp only
  split
  · exact .pass (by simp) (.pass (by simp) (.here hS hinside (by simp)))
  · exact hinside

/-- The declarators stand behind a word and behind commas. -/
theorem leads_variableList {kind : VariableKind} (h : FoundIn S ts) :
    Leads Out.Sound (variableList kind s (ts.map part) c) S := by
  refine .line (.pass (by simp) (.step (settles_text " " (by decide)) (.here hS ?_ (by simp)))) s c
  rw [List.map_map]
  exact leads_commas hS h (fun t => .within t _) fun t ht => ht _

/-- A pattern begins its declarator, and the value stands behind a blank. -/
theorem leads_declarator (h : Found S t ∨ Seen S u) :
    Leads Out.Open (declarator (part t) (part u) c) S := by
  refine .either hS (h.imp (·.operand _) fun h => .last (.when (by simp [h.isAbsent]) ?_))
    (fun _ ho => ho.sound) (by simp) ?_
  · exact .step (settles_text " = " (by decide)) (.last (h.found _))
  · exact List.forall_mem_singleton.2 (.onlyIf _ (.seq (by simp)))

/-- What stands behind a word is found if it is found behind anything. -/
theorem leads_simple {name : String} {d : Doc} (h : Leads Out.Sound d S) :
    Leads Out.Sound (simple s name d c) S :=
  .line (.pass (by simp) (.here hS h (by simp))) s c

/-- The statement stands behind the colon of its label. -/
theorem leads_labeled {label : String} (h : Seen S t) :
    Leads Out.Sound (labeled s label (part t)) S :=
  .marked (.pass (by simp) (.step (settles_text ":" (by decide)) (.last (leads_bodyOf hS h)))) s

/-! ### Branches -/

/-- The second branch stands behind `else`. -/
theorem leads_alternative (h : Seen S t) : Leads Out.Sound (alternative (part t)) S := by
  unfold alternative
  split
  · next habsent =>
    have hinner := h.inner
    rw [show t.kind = _ from habsent] at hinner
    cases hinner
  · exact .pass (by simp) (.step (settles_text "else " (by decide)) (.last (h.found _)))
  · exact .pass (by simp) (.step (settles_text "else" (by decide)) (.last (leads_bodyOf hS h)))

/-- The parts of an `if`: the condition behind a parenthesis, and each branch behind a blank or a
brace. -/
theorem leads_ifElse (h : Found S t ∨ Seen S u ∨ Seen S v) :
    Leads Out.Sound (ifElse s (part t) (part u) (part v) c) S := by
  unfold ifElse
  extract_lets behindBlock first
  have hbehind : Grows behindBlock := by
    unfold behindBlock
    split <;> simp
  have hgrows : Grows first := by
    unfold first
    split
    · exact .seq (by simp [hbehind])
    · split
      · exact .seq (by simp [hbehind])
      · exact .seq (by simp)
  have hfirst (h : Seen S u) : Leads Out.Open first S := by
    unfold first
    split
    · exact .here hS (leads_blockOf h.found).ofOpen (by simp [hbehind])
    · split
      · refine .ofOpen (.pass (by simp) (.here hS ?_ (by simp [hbehind])))
        exact .braces hS (h.found _)
      · exact .here hS (leads_bodyOf hS h) (by simp)
  refine .line (.pass (by simp) (.behind hS (settles_text " (" (by decide))
    (h.imp (·.whole) fun h => ?_) (by simp) (by simp [hgrows]))) s c
  refine .behind hS (settles_text ")" (by decide)) (h.imp hfirst fun h => ?_) hgrows (by simp)
  exact .last (leads_alternative hS h)

/-- The statements of a case stand behind its colon, on its line if there is one, and on lines of
their own otherwise. -/
theorem leads_case (hlines : ∀ t ∈ ts, Settles ((part t).within .statement))
    (h : Seen S t ∨ ∃ u ∈ ts, Seen S u) : Leads Out.Sound (case (part t) (ts.map part)) S := by
  unfold case
  extract_lets label statements
  have hlabel : Grows label := by
    unfold label
    split
    · simp
    · exact .seq (by simp)
  have hgrows : Grows statements := by
    unfold statements
    split
    · next only honly =>
      obtain ⟨t, -, rfl⟩ : ∃ t ∈ ts, part t = only :=
        List.mem_map.1 (honly ▸ List.mem_singleton_self only)
      exact .bodyOf t
    · exact .seq (by simp)
  refine .pass (by simp) (.either hS (h.imp (fun h => ?_) fun h => ?_) (fun _ ho => ho) hlabel
    (by simp [hgrows]))
  · unfold label
    rw [h.isAbsent]
    exact .step (settles_text "case " (by decide)) (.last h.found.whole)
  refine .step (settles_text ":" (by decide)) (.last ?_)
  obtain ⟨u, hu, hseen⟩ := h
  unfold statements
  split
  · next only honly =>
    have huonly : part u ∈ [only] := honly ▸ List.mem_map_of_mem hu
    rw [← List.mem_singleton.1 huonly]
    exact leads_bodyOf hS hseen
  · refine .ofOpen (.step settles_newline (.last ?_))
    exact .nested hS (leads_lines hS hlines ⟨u, hu, hseen.found⟩) fun _ _ ho => ⟨ho.sound, ho.head⟩

/-- The value stands behind a parenthesis, the cases on lines in braces. -/
theorem leads_switch (hlines : ∀ t ∈ ts, Settles ((part t).within .statement))
    (h : Found S t ∨ FoundIn S ts) : Leads Out.Sound (switch s (part t) (ts.map part) c) S := by
  have hbraces : Grows (braces (ts.map part).isEmpty
      (seq ((ts.map part).map (·.within .statement)))) := .braces _ (.seq (by simp))
  refine .line (.pass (by simp) (.behind hS (settles_text " (" (by decide))
    (h.imp (·.whole) fun h => ?_) (by simp) ?_)) s c
  · exact .pass (by simp) (.here hS (leads_braces hS h (leads_lines hS hlines h)) (by simp))
  · exact List.forall_mem_cons.2 ⟨.text _, List.forall_mem_cons.2 ⟨hbraces, by simp⟩⟩

/-- The blocks of a `try` stand behind words; the first one settles, so that what is behind it is
found as well. -/
theorem leads_tryCatch (hblock : Settles (blockOf (part t)))
    (h : Found S t ∨ Seen S u ∨ Seen S v) :
    Leads Out.Sound (tryCatch s (part t) (part u) (part v) c) S := by
  have hlast : Grows (onlyIf (!(part v).isAbsent) (seq [text " finally", blockOf (part v)])) :=
    .onlyIf _ (.seq (by simp))
  have hrest : ∀ d ∈ [onlyIf (!(part v).isAbsent) (seq [text " finally", blockOf (part v)]),
      newline], Grows d := List.forall_mem_cons.2 ⟨hlast, by simp⟩
  refine .line (.pass (by simp) ?_) s c
  rcases h with h | h
  · exact .here hS (leads_blockOf h) (List.forall_mem_cons.2 ⟨by simp, hrest⟩)
  refine .step hblock (.either hS (h.imp (fun h => .when (by simp [h.isAbsent]) h.found.whole)
    fun h => .here hS (.when (by simp [h.isAbsent]) ?_) (by simp)) (fun _ ho => ho.sound) (by simp)
    hrest)
  exact .pass (by simp) (.last (leads_blockOf h.found))

/-- The parameter of a handler stands behind a parenthesis, its block behind a blank. -/
theorem leads_handler (h : Seen S t ∨ Found S u) :
    Leads Out.Sound (handler (part t) (part u)) S := by
  refine .pass (by simp) (.either hS (h.imp (fun h => .when (by simp [h.isAbsent]) ?_) fun h => ?_)
    (fun _ ho => ho) (.onlyIf _ (.seq (by simp))) (by simp))
  · exact .step (settles_text " (" (by decide)) (.here hS h.found.whole (by simp))
  · exact .last (leads_blockOf h)

/-! ### Loops -/

/-- The parts of the head stand behind a parenthesis or a semicolon, the body behind the head. -/
theorem leads_forLoop (h : Found S t ∨ Seen S u ∨ Seen S v ∨ Seen S w) :
    Leads Out.Sound (forLoop s (part t) (part u) (part v) (part w) c) S := by
  refine .line (.pass (by simp) (.behind hS (settles_text " (" (by decide))
    (h.imp (· _) fun h => ?_) (by simp) (by simp))) s c
  refine .pass (by simp) (.either hS (h.imp leads_spaced fun h => ?_) (fun _ ho => ho) (by simp)
    (by simp))
  refine .pass (by simp) (.either hS (h.imp leads_spaced fun h => ?_) (fun _ ho => ho) (by simp)
    (by simp))
  exact .step (settles_text ")" (by decide)) (.last (leads_bodyOf hS h))

/-- The target of a loop over values stands behind a parenthesis, the value behind a word, and the
body behind the head. -/
theorem leads_forEach {words between : String} {level : Level}
    (h : Found S t ∨ Found S u ∨ Seen S v) :
    Leads Out.Sound (forEach s words between level (part t) (part u) (part v) c) S := by
  refine .line (.pass (by simp) (.behind hS (settles_text " (" (by decide))
    (h.imp (· _) fun h => ?_) (by simp) (by simp))) s c
  refine .pass (by simp) (.pass (by simp) (.behind hS (settles_text " " (by decide))
    (h.imp (·.operand _) fun h => ?_) (by simp) (by simp)))
  exact .step (settles_text ")" (by decide)) (.last (leads_bodyOf hS h))

/-- A word, an expression in parentheses, and a statement. -/
theorem leads_guarded {name : String} (h : Found S t ∨ Seen S u) :
    Leads Out.Sound (seq [word name, text " (", (part t).whole, text ")", bodyOf (part u)]) S := by
  refine .pass (by simp) (.behind hS (settles_text " (" (by decide)) (h.imp (·.whole) fun h => ?_)
    (by simp) (by simp))
  exact .step (settles_text ")" (by decide)) (.last (leads_bodyOf hS h))

theorem leads_whileLoop (h : Found S t ∨ Seen S u) :
    Leads Out.Sound (whileLoop s (part t) (part u) c) S := .line (leads_guarded hS h) s c

theorem leads_withScope (h : Found S t ∨ Seen S u) :
    Leads Out.Sound (withScope s (part t) (part u) c) S := .line (leads_guarded hS h) s c

/-- The condition of this loop stands behind a parenthesis, and its body behind a blank or on lines
of its own. -/
theorem leads_doWhile (h : Found S t ∨ Found S u) :
    Leads Out.Sound (doWhile s (part t) (part u) c) S := by
  unfold doWhile
  extract_lets first
  have hgrows : Grows first := by
    unfold first
    split <;> exact .seq (by simp)
  have hfirst (h : Found S t) : Leads Out.Sound first S := by
    unfold first
    split
    · exact .here hS (leads_blockOf h) (by simp)
    · exact .step settles_newline (.here hS (.nested hS (h _) fun _ _ ho => ⟨ho.sound, ho.head⟩)
        (by simp))
  refine .line (.pass (by simp) (.either hS (h.imp hfirst fun h => ?_) (fun _ ho => ho) hgrows
    (by simp))) s c
  exact .step (settles_text "while (" (by decide)) (.here hS h.whole (by simp))

/-! ### Exports and scripts -/

omit hS in
theorem leads_exportDeclaration (h : Found S t) :
    Leads Out.Sound (exportDeclaration s (part t)) S :=
  .pass (by simp) (.pass (by simp) (.step (settles_text "export " (by decide)) (.last (h _))))

/-- What is exported stands behind a word, so it is found whether or not it is a declaration. -/
theorem leads_exportDefault (h : Found S t) : Leads Out.Sound (exportDefault s (part t)) S := by
  unfold exportDefault
  extract_lets tail inside
  have hinside : Leads Out.Open inside S := by
    unfold inside
    split
    · exact h _
    · exact h _
    · exact fun o ho => Leads.here hS (h.operand _) (by simp) _ ⟨ho.sound, ho.head⟩
  exact .pass (by simp) (.pass (by simp) (.step (settles_text "export default " (by decide))
    (.last hinside)))

/-- The lines of a file, behind its first line if it has one for the system. -/
theorem leads_program {hashbang : Option String}
    (hlines : ∀ t ∈ ts, Settles ((part t).within .statement))
    (h : ∃ t ∈ ts, Seen S t) :
    Leads Out.Open (program hashbang s (ts.map part)) S := by
  refine .step (m := Out.Open) ?_ (.here hS (leads_bodyLines hS hlines h) (by simp))
  cases hashbang with
  | none => exact fun o ho => ho
  | some line => exact .ofOpen (.pass (by simp) (.last settles_newline))

end CallBridge.Script.Printer
