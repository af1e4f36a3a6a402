import CallBridge.Proofs.Script.Printing.Found.Expressions

/-!
# Children found in patterns, functions and classes

The layouts of patterns, types, functions and classes lead to what is looked for when that of a
child does. In a body each item is printed on lines of its own, so what stands in front of an item
is the end of the one before it.
-/

namespace CallBridge.Script.Printer

variable {S : Out → Prop} (hS : Lasting S) {f : Front} {t u v : Tree} {ts : List Tree} {c : Ctx}
  {s : Span}

include hS

/-! ### Patterns -/

/-- The parts of an array pattern stand behind a bracket or a comma. -/
theorem leads_arrayPattern (h : FoundIn S ts) : Leads Out.Sound (arrayPattern (ts.map part)) S := by
  unfold arrayPattern
  extract_lets closing
  have hclosing : Grows closing := by
    dsimp only [closing]
    split <;> simp
  refine .step (settles_text "[" (by decide)) (.here hS (leads_operands hS h _) ?_)
  exact List.forall_mem_cons.2 ⟨hclosing, by simp⟩

/-- If there are parts, the pattern has braces with blanks inside. -/
theorem leads_objectPattern (h : FoundIn S ts) :
    Leads Out.Sound (objectPattern (ts.map part)) S := by
  have hnonempty : (ts.map part).isEmpty = false := by
    obtain ⟨t, ht, -⟩ := h
    simpa using List.ne_nil_of_mem ht
  unfold objectPattern
  rw [if_neg (by simp [hnonempty])]
  exact .step (settles_text "\x7b " (by decide)) (.here hS (leads_operands hS h _) (by simp))

theorem leads_objectTarget (h : FoundIn S ts) :
    Leads Out.Sound (objectTarget (ts.map part)) S :=
  .step (settles_text "\x7b" (by decide)) (.here hS (leads_operands hS h _) (by simp))

/-- A key and its value. -/
theorem leads_keyed {computed : Bool} (h : Found S t ∨ Found S u) :
    Leads Out.Open (seq [key (part t) computed, text ": ", (part u).operand Level.comma]) S := by
  refine .either hS (h.imp (leads_key hS · _) fun h => ?_) (fun _ ho => ho.sound) (.key t _)
    (by simp)
  exact .step (settles_text ": " (by decide)) (.last (h.operand _))

/-- A part that is written short hides its key, which is a leaf and has nothing to be found in it.
-/
theorem leads_patternProperty {computed : Bool} (h : Seen S t ∨ Found S u) :
    Leads Out.Open (patternProperty computed (part t) (part u)) S := by
  have hkeyed : Leads Out.Open
      (seq [key (part t) computed, text ": ", (part u).operand Level.comma]) S :=
    leads_keyed hS (h.imp_left (·.found))
  unfold patternProperty
  dsimp only
  split
  · next name hkey =>
    split
    · refine h.elim (fun h => ?_) fun h => h.operand _
      have hinner := h.inner
      rw [show t.kind = _ from hkey] at hinner
      cases hinner
    · exact hkeyed
  · exact hkeyed

/-- The same goes for a target that is written short. -/
theorem leads_targetProperty {shorthand computed : Bool} (hkey : shorthand → t.kind.isLeaf)
    (h : Seen S t ∨ Found S u) :
    Leads Out.Open (targetProperty shorthand computed (part t) (part u)) S := by
  unfold targetProperty
  dsimp only
  split
  · next hshort =>
    refine h.elim (fun h => ?_) fun h => h.operand _
    have hinner := h.inner
    rw [hkey hshort] at hinner
    cases hinner
  · exact leads_keyed hS (h.imp_left (·.found))

/-- What begins the pattern is found where the whole begins; the default stands behind a blank. -/
theorem leads_withDefault (h : FoundAt S (f.bind fun _ => some Level.comma) t ∨ Found S u) :
    Leads f.Starts (withDefault (part t) (part u)) S := by
  refine .either hS (h.imp (fun h => h.first rfl) fun h => ?_) (fun _ => Front.sound_of_starts)
    (by simp) (by simp)
  exact .step (settles_text " = " (by decide)) (.last (h.operand _))

/-- A type that is there stands behind a colon. -/
theorem leads_typed {optional : Bool}
    (h : FoundAt S (f.bind fun _ => some Level.comma) t ∨ Seen S u) :
    Leads f.Starts (typed optional (part t) (part u)) S := by
  refine .either hS (h.imp (fun h => h.first rfl) fun h => ?_) (fun _ => Front.sound_of_starts)
    (by simp) (by simp)
  refine .pass (by simp) (.last (.when (by simp [h.isAbsent]) ?_))
  exact .step (settles_text ": " (by decide)) (.last h.found.whole)

/-! ### Types -/

/-- The arguments of a type stand behind a bracket. -/
theorem leads_typeName {name : String} (h : FoundIn S ts) :
    Leads Out.Sound (typeName name (ts.map part)) S := by
  have hnonempty : (ts.map part).isEmpty = false := by
    obtain ⟨t, ht, -⟩ := h
    simpa using List.ne_nil_of_mem ht
  refine .pass (by simp) (.last (.when (by simp [hnonempty]) ?_))
  exact .step (settles_text "<" (by decide)) (.here hS (leads_operands hS h Level.lowest) (by simp))

theorem leads_typeUnion (h : FoundIn S ts) : Leads Out.Open (typeUnion (ts.map part)) S := by
  obtain ⟨t, ht, hfound⟩ := h
  exact .separated hS (settles_text " | " (by decide)) (.text _) (by simp)
    (List.mem_map_of_mem (List.mem_map_of_mem ht)) hfound.whole

/-! ### Bodies -/

/-- Trees that are each printed as lines. -/
theorem leads_lines (hlines : ∀ t ∈ ts, Settles ((part t).within .statement)) (h : FoundIn S ts) :
    Leads Out.Open (seq ((ts.map part).map (·.within .statement))) S := by
  obtain ⟨t, ht, hfound⟩ := h
  refine .lines hS ?_ (List.mem_map_of_mem (List.mem_map_of_mem ht)) (hfound _)
  simpa using hlines

/-- A body with something in it has braces with lines between them. -/
theorem leads_braces {d : Doc} (h : FoundIn S ts) (hd : Leads Out.Open d S) :
    Leads Out.Sound (braces (ts.map part).isEmpty d) S := by
  have hnonempty : (ts.map part).isEmpty = false := by
    obtain ⟨t, ht, -⟩ := h
    simpa using List.ne_nil_of_mem ht
  rw [hnonempty]
  exact .braces hS hd

/-- The items of a body. The first one is put in parentheses when it is a string. -/
theorem leads_bodyLines (hlines : ∀ t ∈ ts, Settles ((part t).within .statement))
    (h : ∃ t ∈ ts, Seen S t) : Leads Out.Open (bodyLines (ts.map part)) S := by
  obtain ⟨t, ht, hseen⟩ := h
  cases ts with
  | nil => exact absurd ht List.not_mem_nil
  | cons first others =>
    obtain ⟨hfirst, hothers⟩ := List.forall_mem_cons.1 hlines
    rw [List.map_cons]
    unfold bodyLines
    dsimp -zeta only
    extract_lets guarded
    have hguarded : Grows guarded ∧ Settles guarded ∧
        (¬ IsString first → guarded = (part first).within .statement) := by
      unfold guarded
      split
      · next s inner htree =>
        split
        · next value hvalue =>
          refine ⟨.seq (by simp), .pass (by simp) (.pass (by simp) (.last ?_)), fun hno => ?_⟩
          · exact settles_text ");\n" (by decide)
          · exact absurd ⟨s, inner, value, htree, hvalue⟩ hno
        · exact ⟨.within _ _, hfirst, fun _ => rfl⟩
      · exact ⟨.within _ _, hfirst, fun _ => rfl⟩
    have hall : ∀ d ∈ guarded :: (others.map part).map (·.within .statement),
        Grows d ∧ Settles d :=
      List.forall_mem_cons.2 ⟨⟨hguarded.1, hguarded.2.1⟩, by simpa using hothers⟩
    rcases List.mem_cons.1 ht with rfl | ht
    · refine .lines hS hall (List.mem_cons_self ..) ?_
      rw [hguarded.2.2 hseen.code]
      exact hseen.found _
    · refine .lines hS hall (List.mem_cons_of_mem _ ?_) (hseen.found .statement)
      exact List.mem_map_of_mem (List.mem_map_of_mem ht)

/-- What stands in a body is found behind its brace. -/
theorem leads_body (hlines : ∀ t ∈ ts, Settles ((part t).within .statement))
    (h : ∃ t ∈ ts, Seen S t) : Leads Out.Sound (body (ts.map part)) S := by
  obtain ⟨t, ht, hseen⟩ := h
  exact leads_braces hS ⟨t, ht, hseen.found⟩ (leads_bodyLines hS hlines ⟨t, ht, hseen⟩)

/-! ### Functions -/

omit hS in
/-- A signature takes nothing back, since no layout does. -/
theorem Grows.signature (t u v : Tree) : Grows (signature (part t) (part u) (part v)) :=
  (congruent_grows.signature (matches_part t) (matches_part u) (matches_part v)).1

/-- Parameters, type of the result and body. -/
theorem leads_signature (h : Found S t ∨ Seen S u ∨ Seen S v) :
    Leads Out.Sound (signature (part t) (part u) (part v)) S := by
  refine .behind hS (settles_text "(" (by decide)) (h.imp (·.whole) fun h => ?_) (by simp) (by simp)
  refine .pass (.text _) (.either hS ?_ (fun _ ho => ho) (by simp) (by simp))
  refine h.imp (fun h => .when (by simp [h.isAbsent]) ?_)
    fun h => .last (.when (by simp [h.isAbsent]) ?_)
  · exact .step (settles_text ": " (by decide)) (.last h.found.whole)
  · exact .step (settles_text " " (by decide)) (.last h.found.whole)

/-- A function begins with a word or a parenthesis of its own, so what is in it is found wherever it
stands. -/
theorem leads_function {form : FunctionForm} {name : Tree} (h : Found S t ∨ Seen S u ∨ Seen S v) :
    Leads Out.Sound (function form s (part name) (part t) (part u) (part v) c) S := by
  have hsignature := leads_signature hS h
  have hwords : Leads Out.Sound
      (functionWords form (part name) (part t) (part u) (part v)) S := by
    have hname :
        Grows (onlyIf (!(part name).isAbsent) (seq [spaceBeforeWord, (part name).whole])) :=
      .onlyIf _ (.seq (by simp))
    exact .pass (by simp) (.pass (by simp) (.pass (by simp) (.pass (by simp) (.pass hname
      (.last hsignature)))))
  unfold function
  split
  · exact hsignature
  · split
    · exact .line (.here hS hwords (by simp)) _ _
    · exact fun o ho => Leads.wrap hS (fun _ => hwords.ofOpen) (fun _ => hwords) (fun _ h => h) o ho

/-- The body of an arrow function stands behind the arrow, its parameters behind a parenthesis. -/
theorem leads_arrow {isAsync : Bool} (h : Found S t ∨ Found S u) :
    Leads Out.Sound (arrow isAsync (part t) (part u) c) S := by
  have harrowStart : Notes fun o => { o with arrowStart := o.size } := by
    constructor <;> intro o <;> simp [Out.known]
  unfold arrow
  extract_lets result
  have hresult (h : Found S u) : Leads Out.Open result S := by
    dsimp only [result]
    split
    · exact h _
    · exact fun o ho => h _ _ ⟨ho.sound, ho.head⟩
  have hgrows : Grows result := by
    dsimp only [result]
    split
    · exact .whole _
    · exact (Grows.note harrowStart).chain (.within _ _)
  have harrow : Leads Out.Sound
      (seq [onlyIf isAsync (word "async "), text "(", (part t).whole, text ") => ", result]) S :=
    .pass (.onlyIf isAsync (.word "async ")) (.behind hS (settles_text "(" (by decide))
      (h.imp (·.whole) fun h => .step (settles_text ") => " (by decide))
        (.last (hresult h))) (.whole t)
      (List.forall_mem_cons.2 ⟨.text _, List.forall_mem_singleton.2 hgrows⟩))
  exact .wrap hS (fun _ => harrow.ofOpen) (fun _ => harrow) fun _ h => h

/-! ### Classes -/

/-- The name of a class, its parent and its members stand behind words, and each member on a line of
its own. -/
theorem leads_classWords (hlines : ∀ t ∈ ts, Settles ((part t).within .statement))
    (h : Seen S t ∨ Seen S u ∨ FoundIn S ts) :
    Leads Out.Sound (classWords (part t) (part u) (ts.map part)) S := by
  have hmembers : ∀ d ∈ (ts.map part).map memberLine, Grows d ∧ Settles d := by
    rw [List.map_map, List.forall_mem_map]
    intro t ht
    change Grows (seq [indent, _]) ∧ Settles (seq [indent, _])
    exact ⟨.seq (by simp), .pass .indent (.last (hlines t ht))⟩
  have hbraces : Grows (braces (ts.map part).isEmpty (seq ((ts.map part).map memberLine))) :=
    .braces _ (.seq fun d hd => (hmembers d hd).1)
  have hparent : Grows (onlyIf (!(part u).isAbsent)
      (seq [text " extends ", (part u).operand Level.postfixed])) := .onlyIf _ (.seq (by simp))
  refine .pass (by simp) (.either hS (h.imp (fun h => .when (by simp [h.isAbsent]) ?_) fun h => ?_)
    (fun _ ho => ho) (.onlyIf _ (.seq (by simp)))
    (List.forall_mem_cons.2 ⟨hparent, by simpa using hbraces⟩))
  · exact .step (settles_text " " (by decide)) (.last h.found.whole)
  refine .either hS (h.imp (fun h => .when (by simp [h.isAbsent]) ?_) fun h => ?_)
    (fun _ ho => ho) hparent (by simpa using hbraces)
  · exact .step (settles_text " extends " (by decide)) (.last (h.found.operand _))
  obtain ⟨t, ht, hfound⟩ := h
  refine .pass (.text _) (.last (leads_braces hS ⟨t, ht, hfound⟩ ?_))
  refine .lines hS hmembers (List.mem_map_of_mem (List.mem_map_of_mem ht)) ?_
  exact .step (fun o ho => leads_indent o ho.ready) (.last (hfound _))

/-- A class begins with a word, so what is in it is found wherever it stands. -/
theorem leads_classLike {isDeclaration : Bool}
    (hlines : ∀ t ∈ ts, Settles ((part t).within .statement))
    (h : Seen S t ∨ Seen S u ∨ FoundIn S ts) :
    Leads Out.Sound (classLike isDeclaration s (part t) (part u) (ts.map part) c) S := by
  have hwords := leads_classWords hS hlines h
  unfold classLike
  split
  · exact .line (.here hS hwords (by simp)) _ _
  · exact fun o ho => Leads.wrap hS (fun _ => hwords.ofOpen) (fun _ => hwords) (fun _ h => h) o ho

omit hS in
/-- The word in front of a static member. -/
theorem leads_static {isStatic : Bool} {ds : List Doc} (h : Leads Out.Open (seq ds) S) :
    Leads Out.Open (seq (onlyIf isStatic (text "static ") :: ds)) S := by
  refine .step (m := Out.Open) ?_ h
  cases isStatic with
  | false => exact fun o ho => ho
  | true => exact (settles_text "static " (by decide)).ofOpen

/-- The line of a member may begin with a word in front of the method. -/
theorem leads_methodLine {form : MethodForm} {isStatic computed : Bool}
    (h : Found S t ∨ FoundAt S (some Ctx.statement.level) u) :
    Leads Out.Open (methodLine form isStatic computed (part t) (part u)) S :=
  leads_static (.here hS (leads_method hS h) (by simp))

/-- The value of a field, if it is there, stands behind a blank. -/
theorem leads_fieldLine {isStatic computed : Bool} (h : Found S t ∨ Seen S u) :
    Leads Out.Open (fieldLine isStatic computed (part t) (part u)) S := by
  have hvalue : Grows (onlyIf (!(part u).isAbsent)
      (seq [text " = ", (part u).operand Level.comma])) := .onlyIf _ (.seq (by simp))
  refine leads_static (.either hS (h.imp (leads_key hS · _) fun h => ?_) (fun _ ho => ho.sound)
    (.key t _) (List.forall_mem_cons.2 ⟨hvalue, by simp⟩))
  refine .here hS (.when (by simp [h.isAbsent]) ?_) (by simp)
  exact .step (settles_text " = " (by decide)) (.last (h.found.operand _))

theorem leads_staticBlock (hlines : ∀ t ∈ ts, Settles ((part t).within .statement))
    (h : FoundIn S ts) : Leads Out.Sound (staticBlock (ts.map part)) S :=
  .pass (by simp) (.here hS (leads_braces hS h (leads_lines hS hlines h)) (by simp))

end CallBridge.Script.Printer
