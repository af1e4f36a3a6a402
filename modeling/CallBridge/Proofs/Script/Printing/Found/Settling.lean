import CallBridge.Proofs.Script.Printing.Found.Statements

/-!
# Lines settle

What is printed as lines of its own ends in a line break, or in a brace where the line goes on. So a
name behind it is found, whatever the statement began behind. Main statement: so it is for every
tree of the shape that the grammar gives (`settles_of_isLine`).
-/

namespace CallBridge.Script.Printer

variable {t u v : Tree} {ts : List Tree} {c : Ctx} {s : Span}

/-- Where a statement is printed with its end. -/
def Ctx.Ends (c : Ctx) : Prop := c.role = .line ∨ c.role = .tail

/-- What is printed of a statement settles. -/
def Ending (t : Tree) : Prop := ∀ c : Ctx, c.Ends → Settles ((part t).within c)

/-- A statement on a line of its own settles. -/
theorem Ending.statement (h : Ending t) : Settles ((part t).within .statement) := h _ (Or.inl rfl)

/-- So does one behind a word of the statement around it. -/
theorem Ending.tail (h : Ending t) :
    Settles ((part t).within { Ctx.statement with role := .tail }) := h _ (Or.inr rfl)

/-- A semicolon is followed by a line break. -/
theorem settles_semicolon : Settles (text ";\n") := settles_text _ (by decide)

/-- A declaration ends in a semicolon, except in the head of a loop. -/
theorem settles_endLine (hc : c.Ends) : Settles (endLine c) := by
  unfold endLine
  split
  · next hhead => rcases hc with hc | hc <;> rw [hc] at hhead <;> cases hhead
  · exact settles_semicolon

/-- A body settles: a block ends its line, an empty body is a semicolon, and any other statement
settles by itself. -/
theorem Ending.bodyOf (h : Ending t) : Settles (bodyOf (part t)) := by
  unfold Printer.bodyOf
  split
  · exact .pass (by simp) (.pass (by simp) (.last settles_newline))
  · exact settles_semicolon
  · exact fun o ho => h.statement _ ho

/-- A block on the line of its statement settles if the block does. -/
theorem Ending.blockOf (h : Ending t) : Settles (blockOf (part t)) :=
  .pass (by simp) (.last h.tail)

/-- Several statements one after the other, from where a name is found. -/
theorem settles_lines (h : ∀ t ∈ ts, Ending t) :
    Leads Out.Open (seq ((ts.map part).map (·.within .statement))) Out.Open := by
  induction ts with
  | nil => exact fun o ho => ho
  | cons t ts ih =>
    obtain ⟨ht, hts⟩ := List.forall_mem_cons.1 h
    exact .step ht.statement.ofOpen (ih hts)

/-- A name behind a brace is found, whatever the braces hold. -/
theorem settles_braces {b : Bool} {d : Doc} (hd : Grows d) : Settles (braces b d) := by
  cases b with
  | true => exact settles_text _ (by decide)
  | false =>
    change Settles (seq [text "\x7b\n", nested d, indent, text "\x7d"])
    exact .pass (by simp) (.pass (by simp [hd]) (.pass (by simp)
      (.last (settles_text _ (by decide)))))

/-! ### Statements -/

/-- A block ends in a brace, and in a line break as well where it is a statement. -/
theorem settles_block (c : Ctx) : Settles (block s (ts.map part) c) := by
  have hinside : Settles (braces (ts.map part).isEmpty
      (seq ((ts.map part).map (·.within .statement)))) := settles_braces (.seq (by simp))
  have hgrows : Grows (braces (ts.map part).isEmpty
      (seq ((ts.map part).map (·.within .statement)))) := .braces _ (.seq (by simp))
  unfold block
  dsimp only
  split
  · exact .pass (by simp) (.pass (by simp) (.pass hgrows (.last settles_newline)))
  · exact hinside

/-- A statement of a word ends in a semicolon. -/
theorem settles_simple {name : String} {d : Doc} (hd : Grows d) : Settles (simple s name d c) :=
  .line (.pass (by simp) (.pass hd (.last settles_semicolon))) s c

theorem settles_expressionStatement : Settles (expressionStatement s (part t)) := by
  have hstart : Notes fun o => { o with statementStart := o.size } := by
    constructor <;> intro o <;> simp [Out.known]
  exact .marked (.pass (.note hstart) (.pass (by simp) (.last settles_semicolon))) s

/-- A statement with a label ends as the statement does. -/
theorem settles_labeled {label : String} (h : Ending t) : Settles (labeled s label (part t)) :=
  .marked (.pass (by simp) (.pass (by simp) (.last h.bodyOf))) s

/-- An `if` settles behind its first branch already, where its line may end. The second branch, if
it is there, settles by itself. -/
theorem settles_ifElse (hyes : Ending u) (hno : v.kind = .absent ∨ Ending v) :
    Settles (ifElse s (part t) (part u) (part v) c) := by
  unfold ifElse
  extract_lets behindBlock first
  have hbehind : Settles behindBlock := by
    unfold behindBlock
    split
    · exact settles_newline
    · exact settles_text _ (by decide)
  have hfirst : Settles first := by
    unfold first
    split
    · exact .pass (by simp) (.last hbehind)
    · split
      · exact .pass (by simp) (.pass (.braces _ (by simp)) (.last hbehind))
      · refine .step hyes.bodyOf (.last ?_)
        cases hif : !(part v).isAbsent with
        | false => exact fun o ho => ho
        | true => exact fun o ho => leads_indent o ho.ready
  refine .line (.pass (by simp) (.pass (by simp) (.pass (by simp) (.pass (by simp)
    (.step hfirst (.last ?_)))))) s c
  unfold alternative
  split
  · exact fun o ho => ho
  · next hkind =>
    have hend : Ending v := hno.resolve_left fun habsent => by
      rw [show v.kind = _ from hkind] at habsent
      cases habsent
    exact .ofOpen (.pass (by simp) (.pass (by simp) (.last hend.tail)))
  · next habsent _ =>
    have hend : Ending v := hno.resolve_left habsent
    exact .ofOpen (.pass (by simp) (.pass (by simp) (.last hend.bodyOf)))

/-- The statements of a case settle one after the other, and without any the line of the case ends.
-/
theorem settles_case (h : ∀ t ∈ ts, Ending t) : Settles (case (part t) (ts.map part)) := by
  unfold case
  extract_lets label statements
  have hlabel : Grows label := by
    unfold label
    split
    · simp
    · exact .seq (by simp)
  refine .pass (by simp) (.pass hlabel (.pass (by simp) (.last ?_)))
  unfold statements
  split
  · next only honly =>
    obtain ⟨t, ht, rfl⟩ : ∃ t ∈ ts, part t = only :=
      List.mem_map.1 (honly ▸ List.mem_singleton_self only)
    exact (h t ht).bodyOf
  · refine .step settles_newline (.last fun o ho => ?_)
    have hopen := settles_lines h { o with depth := o.depth + 1 } ⟨ho.sound, ho.head⟩
    exact ⟨hopen.sound, hopen.head⟩

/-- A `switch` ends behind its braces. -/
theorem settles_switch : Settles (switch s (part t) (ts.map part) c) := by
  have hbraces : Grows (braces (ts.map part).isEmpty
      (seq ((ts.map part).map (·.within .statement)))) := .braces _ (.seq (by simp))
  exact .line (.pass (by simp) (.pass (by simp) (.pass (by simp) (.pass (by simp)
    (.pass hbraces (.last settles_newline)))))) s c

/-- A `try` ends behind the last of its blocks. -/
theorem settles_tryCatch : Settles (tryCatch s (part t) (part u) (part v) c) := by
  have hlast : Grows (onlyIf (!(part v).isAbsent) (seq [text " finally", blockOf (part v)])) :=
    .onlyIf _ (.seq (by simp))
  exact .line (.pass (by simp) (.pass (by simp) (.pass (by simp) (.pass hlast
    (.last settles_newline))))) s c

/-- A loop ends as its body does, whatever stands in its head. -/
theorem settles_forLoop {w : Tree} (h : Ending w) :
    Settles (forLoop s (part t) (part u) (part v) (part w) c) :=
  .line (.pass (by simp) (.pass (by simp) (.pass (by simp) (.pass (by simp) (.pass (by simp)
    (.pass (by simp) (.pass (by simp) (.pass (by simp) (.last h.bodyOf))))))))) s c

theorem settles_forEach {words between : String} {level : Level} (h : Ending v) :
    Settles (forEach s words between level (part t) (part u) (part v) c) :=
  .line (.pass (by simp) (.pass (by simp) (.pass (by simp) (.pass (by simp) (.pass (by simp)
    (.pass (by simp) (.pass (by simp) (.pass (by simp) (.last h.bodyOf))))))))) s c

/-- A word, an expression in parentheses and a body: the body decides. -/
theorem settles_guarded {name : String} (h : Ending u) :
    Settles (seq [word name, text " (", (part t).whole, text ")", bodyOf (part u)]) :=
  .pass (by simp) (.pass (by simp) (.pass (by simp) (.pass (by simp) (.last h.bodyOf))))

/-- This loop ends behind its condition. -/
theorem settles_doWhile : Settles (doWhile s (part t) (part u) c) := by
  unfold doWhile
  extract_lets first
  have hgrows : Grows first := by
    unfold first
    split <;> exact .seq (by simp)
  exact .line (.pass (by simp) (.pass hgrows (.pass (by simp) (.pass (by simp)
    (.last (settles_text _ (by decide))))))) s c

/-! ### Declarations, members and modules -/

/-- A function that is a declaration ends its line. It is not the value of a method where statements
end. -/
theorem settles_function {form : FunctionForm} {name : Tree} (hform : form.isDeclaration)
    (hc : c.Ends) : Settles (function form s (part name) (part t) (part u) (part v) c) := by
  have hname : Grows (onlyIf (!(part name).isAbsent) (seq [spaceBeforeWord, (part name).whole])) :=
    .onlyIf _ (.seq (by simp))
  have hwords : Grows (functionWords form (part name) (part t) (part u) (part v)) := by
    refine .seq (List.forall_mem_cons.2 ⟨by simp, List.forall_mem_cons.2 ⟨by simp, ?_⟩⟩)
    refine List.forall_mem_cons.2 ⟨by simp, List.forall_mem_cons.2 ⟨by simp, ?_⟩⟩
    exact List.forall_mem_cons.2 ⟨hname, by simpa using .signature t u v⟩
  unfold function
  split
  · next hmethod => rcases hc with hc | hc <;> rw [hc] at hmethod <;> cases hmethod
  · dsimp only
    exact .line (.pass hwords (.last settles_newline)) s c

/-- A class that is a declaration ends its line. -/
theorem settles_classLike :
    Settles (classLike true s (part t) (part u) (ts.map part) c) := by
  have hmembers : Grows (seq ((ts.map part).map memberLine)) :=
    .seq (List.forall_mem_map.2 (List.forall_mem_map.2 fun t _ => .seq (by simp)))
  have hwords : Grows (classWords (part t) (part u) (ts.map part)) := by
    refine .seq (List.forall_mem_cons.2 ⟨by simp, List.forall_mem_cons.2 ⟨.onlyIf _ ?_, ?_⟩⟩)
    · exact .seq (by simp)
    refine List.forall_mem_cons.2 ⟨.onlyIf _ (.seq (by simp)), ?_⟩
    exact List.forall_mem_cons.2 ⟨.text _, List.forall_mem_singleton.2 (.braces _ hmembers)⟩
  exact .line (.pass hwords (.last settles_newline)) s c

/-- A method ends its line, whatever its value is. -/
theorem settles_methodLine {form : MethodForm} {isStatic computed : Bool} :
    Settles (methodLine form isStatic computed (part t) (part u)) :=
  .pass (by simp) (.pass
    (congruent_grows.method (matches_part t) (matches_part u) form computed).1
    (.last settles_newline))

/-- A field ends in a semicolon. -/
theorem settles_fieldLine {isStatic computed : Bool} :
    Settles (fieldLine isStatic computed (part t) (part u)) :=
  .pass (by simp) (.pass (.key t _) (.pass (.onlyIf _ (.seq (by simp))) (.last settles_semicolon)))

theorem settles_staticBlock : Settles (staticBlock (ts.map part)) :=
  .pass (by simp) (.pass (.braces _ (.seq (by simp))) (.last settles_newline))

theorem settles_directive (raw : String) : Settles (directive raw) :=
  .pass .indent (.pass (.chars _) (.last settles_semicolon))

theorem settles_sourceString (t : Text) : Settles (sourceString t) :=
  .pass (.chars _) (.last settles_semicolon)

/-- An import ends behind the text that names its file. -/
theorem settles_importDeclaration {source : Text} {hasList : Bool} :
    Settles (importDeclaration source hasList s (ts.map part)) := by
  have hclause : Grows (onlyIf hasList (seq [importClause (ts.map part), text " from "])) := by
    refine .onlyIf _ (.seq (List.forall_mem_cons.2 ⟨?_, by simp⟩))
    exact (congruent_grows.importClause (matches_parts ts)).1
  exact .pass (by simp) (.pass (by simp) (.pass (by simp) (.pass (by simp) (.pass hclause
    (.last (settles_sourceString _))))))

/-- A list of exports ends in a semicolon, behind the name of a file or not. -/
theorem settles_exportList {source : Option Text} :
    Settles (exportList source s (ts.map part)) := by
  have hlisted : Grows (listed (ts.map part)) := (congruent_grows.listed (matches_parts ts)).1
  refine .pass (by simp) (.pass (by simp) (.pass (by simp) (.pass hlisted (.last ?_))))
  cases source with
  | none => exact settles_semicolon
  | some t => exact .pass (.text _) (.last (settles_sourceString t))

/-- An export of all names ends behind the text that names its file. -/
theorem settles_exportAll {source : Text} {name : Option ModuleName} :
    Settles (exportAll source name s) := by
  have hname : Grows (name.elim nothing fun n => seq [text " as ", moduleName n]) := by
    cases name with
    | none => exact .nothing
    | some n => exact .seq (by simpa using (congruent_grows.moduleName n).1)
  exact .pass (by simp) (.pass (by simp) (.pass (by simp) (.pass hname (.pass (by simp)
    (.last (settles_sourceString _))))))

/-- An export ends as what it declares. -/
theorem settles_exportDeclaration (h : Ending t) : Settles (exportDeclaration s (part t)) :=
  .pass (by simp) (.pass (by simp) (.pass (by simp) (.last h.tail)))

/-- A default that is an expression ends in a semicolon, and one that is a declaration as that does.
-/
theorem settles_exportDefault (h : t.kind.isLine → Ending t) :
    Settles (exportDefault s (part t)) := by
  unfold exportDefault
  extract_lets tail inside
  have hinside : Settles inside := by
    unfold inside
    split
    · next hkind => exact (h (by rw [show t.kind = _ from hkind]; rfl)).tail
    · next hkind => exact (h (by rw [show t.kind = _ from hkind]; rfl)).tail
    · have hstart : Notes fun o => { o with defaultStart := o.size } := by
        constructor <;> intro o <;> simp [Out.known]
      have hend : Settles (seq [(part t).operand Level.comma, text ";\n"]) :=
        .pass (by simp) (.last settles_semicolon)
      exact fun o ho => hend _ (Leads.grown (.note hstart) o ho)
  exact .pass (by simp) (.pass (by simp) (.pass (by simp) (.last hinside)))

/-! ### All lines -/

/-- What is printed as lines settles. -/
theorem settles_of_isLine (h : WellShaped t) (hline : t.kind.isLine) : Ending t := by
  induction t with
  | node k s ts ih =>
    obtain ⟨hcount, hplace, hts⟩ := wellShaped_node.1 h
    have hend : ∀ t ∈ ts, t.kind.isLine → Ending t := fun t ht hline => ih t ht (hts t ht) hline
    intro c hc
    rw [within_part]
    cases k <;> try exact absurd hline Bool.false_ne_true
    case function form =>
      obtain ⟨name, params, type, body, rfl⟩ := exists_four hcount
      exact settles_function hline hc
    case classLike isDeclaration =>
      obtain ⟨name, parent, members, rfl⟩ := exists_cons_cons hcount
      obtain rfl : isDeclaration = true := hline
      exact settles_classLike
    case method =>
      obtain ⟨key, value, rfl⟩ := exists_two hcount
      exact settles_methodLine
    case field =>
      obtain ⟨key, value, rfl⟩ := exists_two hcount
      exact settles_fieldLine
    case staticBlock => exact settles_staticBlock
    case expressionStatement =>
      obtain ⟨value, rfl⟩ := exists_one hcount
      exact settles_expressionStatement
    case directive raw => exact settles_directive raw
    case block => exact settles_block c
    case empty => exact settles_semicolon.line s c
    case debugger => exact settles_simple .nothing
    case variableList kind =>
      refine .line (.pass (by simp) (.pass (by simp) (.pass ?_ (.last (settles_endLine hc))))) s c
      exact .commas (by simp)
    case ifElse =>
      obtain ⟨test, yes, no, rfl⟩ := exists_three hcount
      obtain ⟨hyes, hno⟩ := Bool.and_eq_true_iff.1 hplace
      refine settles_ifElse (hend yes (by simp) hyes) ((Bool.or_eq_true_iff.1 hno).imp ?_ ?_)
      · exact beq_iff_eq.1
      · exact hend no (by simp)
    case forLoop =>
      obtain ⟨start, test, step, body, rfl⟩ := exists_four hcount
      exact settles_forLoop (hend body (by simp) hplace)
    case forIn =>
      obtain ⟨left, object, body, rfl⟩ := exists_three hcount
      exact settles_forEach (hend body (by simp) hplace)
    case forOf =>
      obtain ⟨left, object, body, rfl⟩ := exists_three hcount
      exact settles_forEach (hend body (by simp) hplace)
    case whileLoop =>
      obtain ⟨test, body, rfl⟩ := exists_two hcount
      exact (settles_guarded (hend body (by simp) hplace)).line s c
    case doWhile =>
      obtain ⟨body, test, rfl⟩ := exists_two hcount
      exact settles_doWhile
    case withScope =>
      obtain ⟨object, body, rfl⟩ := exists_two hcount
      exact (settles_guarded (hend body (by simp) hplace)).line s c
    case returning =>
      obtain ⟨value, rfl⟩ := exists_one hcount
      exact settles_simple (.spaced value)
    case throwing =>
      obtain ⟨value, rfl⟩ := exists_one hcount
      exact settles_simple (.spaced value)
    case breaking label => exact settles_simple (congruent_grows.jumpLabel label).1
    case continuing label => exact settles_simple (congruent_grows.jumpLabel label).1
    case labeled label =>
      obtain ⟨body, rfl⟩ := exists_one hcount
      exact settles_labeled (hend body (by simp) hplace)
    case switch =>
      obtain ⟨value, cases, rfl⟩ := exists_cons hcount
      exact settles_switch
    case case =>
      obtain ⟨test, items, rfl⟩ := exists_cons hcount
      exact settles_case fun t ht => hend t (by simp [ht]) (forall_isLine hplace t ht)
    case tryCatch =>
      obtain ⟨body, handler, finalizer, rfl⟩ := exists_three hcount
      exact settles_tryCatch
    case importDeclaration => exact settles_importDeclaration
    case exportList => exact settles_exportList
    case exportAll => exact settles_exportAll
    case exportDeclaration =>
      obtain ⟨item, rfl⟩ := exists_one hcount
      exact settles_exportDeclaration (hend item (by simp) hplace)
    case exportDefault =>
      obtain ⟨value, rfl⟩ := exists_one hcount
      exact settles_exportDefault (hend value (by simp))

end CallBridge.Script.Printer
