import CallBridge.Proofs.Script.Printing.Found.Settling

/-!
# Visible calls are found

What the layout of a visible call leads to wherever no points are in front of it, and lasts, the
layout of the whole tree leads to (`foundAt_of_visible`): by induction over the tree, each layout
runs that of every child from a state that fits what stands in front of it.
-/

namespace CallBridge.Script.Printer

variable {S : Out → Prop} (hS : Lasting S) {f : Front} {k : Kind} {s : Span} {t x : Tree}
  {ts : List Tree} {c : Ctx}

theorem visible_of_isLeaf (h : WellShaped t) (hleaf : t.kind.isLeaf) : x ∉ visible t f := by
  obtain ⟨k, s, ts⟩ := t
  intro hx
  have hcall : k ≠ .call false := by
    rintro rfl
    exact Bool.false_ne_true hleaf
  obtain rfl := h.eq_nil_of_isLeaf hleaf
  obtain ⟨-, h⟩ := mem_visible.1 hx
  simp [hcall] at h

/-- Below a string in parentheses there is no call. -/
theorem visible_of_string {value : Text} (h : WellShaped t)
    (hstring : t.unparen.kind = .string value) : x ∉ visible t f := by
  induction t generalizing f with
  | node k s ts ih =>
    by_cases hp : ∃ u, k = .paren ∧ ts = [u]
    · obtain ⟨u, rfl, rfl⟩ := hp
      rw [Tree.unparen_paren] at hstring
      intro hx
      obtain ⟨-, hx⟩ := mem_visible.1 hx
      have hu := (wellShaped_node.1 h).2.2 u (List.mem_singleton_self u)
      simp at hx
      exact ih u (List.mem_singleton_self u) hu hstring hx
    · rw [Tree.unparen_node fun u hk hc => hp ⟨u, hk, hc⟩] at hstring
      exact visible_of_isLeaf h (by rw [hstring]; rfl)

theorem visible_of_isString (h : WellShaped t) (hstring : IsString t) : x ∉ visible t f := by
  obtain ⟨s, inner, value, rfl, hvalue⟩ := hstring
  have hinner := (wellShaped_node.1 h).2.2 inner (List.mem_singleton_self inner)
  intro hx
  obtain ⟨-, hx⟩ := mem_visible.1 hx
  simp at hx
  exact visible_of_string hinner hvalue hx

/-- A template or a function has the same visible calls behind points. -/
theorem mem_visible_worded (hw : t.kind.isTemplate || t.kind.isFunction) (h : x ∈ visible t none)
    (f : Front) : x ∈ visible t f := by
  obtain ⟨k, s, ts⟩ := t
  cases k <;> first
    | cases hw; done
    | exact mem_visible_front (by simp) (by rfl) (by rfl) (by intros; rfl) h f

/-! ### Nodes -/

/-- The kinds of nodes that begin with a text of their own, or are never behind points. -/
def Spelled (k : Kind) : Prop := k.isPoints = false ∧ ∀ t l, k.firstLevel? t l = none

include hS

/-- A node that begins with a text of its own, or is never behind points. -/
theorem leads_spelled (hcount : k.counts ts.length) (hplace : k.places (ts.map Tree.kind))
    (hlines : ∀ t ∈ ts, t.kind.isLine → Ending t)
    (hk : Spelled k) (hblocked : f.isBlocked k = false) (h : ∃ t ∈ ts, Seen S t) :
    Leads f.Starts (layout k s (ts.map part) c) S := by
  have hitems (hall : (ts.map Tree.kind).all Kind.isLine) :
      ∀ t ∈ ts, Settles ((part t).within .statement) :=
    fun t ht => (hlines t ht (forall_isLine hall t ht)).statement
  have hany {d : Doc} (hd : Leads Out.Sound d S) : Leads f.Starts d S :=
    hd.imp fun _ => Front.sound_of_starts
  have hbare {d : Doc} (hk : k.isBare) (hd : Leads Out.Open d S) : Leads f.Starts d S := by
    cases f with
    | none => exact hd
    | some l => simp [Front.isBlocked, hk] at hblocked
  have hinner (hall : (ts.map Tree.kind).all Kind.isSpecifier) : False := by
    obtain ⟨t, ht, hseen⟩ := h
    have hspecifier : t.kind.isSpecifier := List.all_eq_true.1 hall _ (List.mem_map_of_mem ht)
    cases hseen.inner.symm.trans (Kind.isLeaf_of_isSpecifier hspecifier)
  -- A text of its own leads from anywhere; the bare kinds, of which the first child may begin the
  -- node, only lead where nothing has to come first.
  cases k
  case template => exact hany (leads_template hS (beq_iff_eq.1 hcount) (.of_seen h))
  case array => exact hany (leads_array hS (.of_seen h))
  case object => exact hany (leads_object hS (.of_seen h))
  case property form computed =>
    obtain ⟨key, value, rfl⟩ := exists_two hcount
    rw [exists_mem_two] at h
    refine hbare rfl ?_
    cases hform : Kind.isMethodForm form with
    | false => exact leads_property hS hform (h.imp_right (·.found))
    | true =>
      have hvalue : value.kind.isFunction := by
        simpa [hform] using (Bool.and_eq_true_iff.1 hplace).2
      have hmethod (m : MethodForm) :
          Leads Out.Open (method m (part key) (part value) computed) S := by
        refine leads_method hS (h.imp (·.found) fun h => h.worded ?_ _)
        rw [hvalue, Bool.or_true]
      cases form with
      | init => cases hform
      | shorthand => cases hform
      | method => exact hmethod .method
      | getter => exact hmethod .getter
      | setter => exact hmethod .setter
  case function form =>
    obtain ⟨name, params, type, body, rfl⟩ := exists_four hcount
    rw [exists_mem_four] at h
    have hleaf : name.kind.isLeaf := hplace
    have hname : ¬ Seen S name := fun hseen => by simp [hseen.inner] at hleaf
    exact hany (leads_function hS ((h.resolve_left hname).imp_left (·.found)))
  case arrow =>
    obtain ⟨params, body, rfl⟩ := exists_two hcount
    rw [exists_mem_two] at h
    exact hany (leads_arrow hS (h.imp (·.found) (·.found)))
  case parameters => exact hbare rfl (leads_operands hS (.of_seen h) _)
  case body => exact hany (leads_body hS (hitems hplace) h)
  case classLike =>
    obtain ⟨name, parent, members, rfl⟩ := exists_cons_cons hcount
    simp only [List.mem_cons, exists_eq_or_imp] at h
    refine hany (leads_classLike hS (fun t ht => ?_) (h.imp_right (·.imp_right .of_seen)))
    exact (hlines t (by simp [ht]) (forall_isLine hplace t ht)).statement
  case method form isStatic computed =>
    obtain ⟨key, value, rfl⟩ := exists_two hcount
    rw [exists_mem_two] at h
    have hvalue : value.kind.isFunction := hplace
    refine hbare rfl (leads_methodLine hS (h.imp (·.found) fun h => h.worded ?_ _))
    rw [hvalue, Bool.or_true]
  case field =>
    obtain ⟨key, value, rfl⟩ := exists_two hcount
    rw [exists_mem_two] at h
    exact hbare rfl (leads_fieldLine hS (h.imp_left (·.found)))
  case staticBlock => exact hany (leads_staticBlock hS (hitems hplace) (.of_seen h))
  case new =>
    obtain ⟨callee, items, rfl⟩ := exists_cons hcount
    simp only [List.mem_cons, exists_eq_or_imp] at h
    exact hany (leads_new hS (h.imp (·.found) .of_seen))
  case unary =>
    obtain ⟨operand, rfl⟩ := exists_one hcount
    rw [exists_mem_one] at h
    exact hany (leads_unary hS h.found)
  case update op isPrefix =>
    obtain ⟨target, rfl⟩ := exists_one hcount
    rw [exists_mem_one] at h
    cases isPrefix with
    | true => exact hany (leads_prefixUpdate hS h.found)
    | false => cases hk.2 target 0
  case await =>
    obtain ⟨value, rfl⟩ := exists_one hcount
    rw [exists_mem_one] at h
    exact hany (leads_await hS h.found)
  case yield =>
    obtain ⟨value, hvalue, hseen⟩ := h
    obtain rfl : ts = [value] := by
      obtain _ | ⟨first, _ | ⟨second, ts⟩⟩ := ts
      · cases hvalue
      · rw [List.mem_singleton.1 hvalue]
      · have hle : (first :: second :: ts).length ≤ 1 := of_decide_eq_true hcount
        simp at hle
    exact hany (leads_yield hS hseen.found)
  case importCall => exact hany (leads_importCall hS (.of_seen h))
  case objectPattern => exact hany (leads_objectPattern hS (.of_seen h))
  case arrayPattern => exact hany (leads_arrayPattern hS (.of_seen h))
  case objectTarget => exact hany (leads_objectTarget hS (.of_seen h))
  case arrayTarget => exact hany (leads_arrayPattern hS (.of_seen h))
  case patternProperty =>
    obtain ⟨key, value, rfl⟩ := exists_two hcount
    rw [exists_mem_two] at h
    exact hbare rfl (leads_patternProperty hS (h.imp_right (·.found)))
  case targetProperty shorthand computed =>
    obtain ⟨key, value, rfl⟩ := exists_two hcount
    rw [exists_mem_two] at h
    refine hbare rfl (leads_targetProperty hS (fun hshort => ?_) (h.imp_right (·.found)))
    simpa [Kind.places, hshort] using hplace
  case typeName => exact hany (leads_typeName hS (.of_seen h))
  case typeArray =>
    obtain ⟨item, rfl⟩ := exists_one hcount
    rw [exists_mem_one] at h
    exact hbare rfl (.here hS h.found.whole (by simp))
  case typeUnion => exact hbare rfl (leads_typeUnion hS (.of_seen h))
  case expressionStatement =>
    obtain ⟨value, rfl⟩ := exists_one hcount
    rw [exists_mem_one] at h
    exact hbare rfl (leads_expressionStatement hS h.found)
  case block => exact hany (leads_block hS (hitems hplace) (.of_seen h))
  case variableList => exact hany (leads_variableList hS (.of_seen h))
  case declarator =>
    obtain ⟨pattern, value, rfl⟩ := exists_two hcount
    rw [exists_mem_two] at h
    exact hbare rfl (leads_declarator hS (h.imp_left (·.found)))
  case ifElse =>
    obtain ⟨test, yes, no, rfl⟩ := exists_three hcount
    rw [exists_mem_three] at h
    exact hany (leads_ifElse hS (h.imp_left (·.found)))
  case forLoop =>
    obtain ⟨start, test, step, body, rfl⟩ := exists_four hcount
    rw [exists_mem_four] at h
    exact hany (leads_forLoop hS (h.imp_left (·.found)))
  case forIn =>
    obtain ⟨left, object, body, rfl⟩ := exists_three hcount
    rw [exists_mem_three] at h
    exact hany (leads_forEach hS (h.imp (·.found) (·.imp_left (·.found))))
  case forOf =>
    obtain ⟨left, object, body, rfl⟩ := exists_three hcount
    rw [exists_mem_three] at h
    exact hany (leads_forEach hS (h.imp (·.found) (·.imp_left (·.found))))
  case whileLoop =>
    obtain ⟨test, body, rfl⟩ := exists_two hcount
    rw [exists_mem_two] at h
    exact hany (leads_whileLoop hS (h.imp_left (·.found)))
  case doWhile =>
    obtain ⟨body, test, rfl⟩ := exists_two hcount
    rw [exists_mem_two] at h
    exact hany (leads_doWhile hS (h.imp (·.found) (·.found)))
  case withScope =>
    obtain ⟨object, body, rfl⟩ := exists_two hcount
    rw [exists_mem_two] at h
    exact hany (leads_withScope hS (h.imp_left (·.found)))
  case returning =>
    obtain ⟨value, rfl⟩ := exists_one hcount
    rw [exists_mem_one] at h
    exact hany (leads_simple hS (leads_spaced h))
  case throwing =>
    obtain ⟨value, rfl⟩ := exists_one hcount
    rw [exists_mem_one] at h
    exact hany (leads_simple hS (leads_spaced h))
  case labeled =>
    obtain ⟨body, rfl⟩ := exists_one hcount
    rw [exists_mem_one] at h
    exact hany (leads_labeled hS h)
  case switch =>
    obtain ⟨value, cases, rfl⟩ := exists_cons hcount
    simp only [List.mem_cons, exists_eq_or_imp] at h
    refine hany (leads_switch hS (fun t ht => ?_) (h.imp (·.found) .of_seen))
    exact (hlines t (by simp [ht]) (forall_isLine hplace t ht)).statement
  case case =>
    obtain ⟨test, items, rfl⟩ := exists_cons hcount
    simp only [List.mem_cons, exists_eq_or_imp] at h
    refine hany (leads_case hS (fun t ht => ?_) h)
    exact (hlines t (by simp [ht]) (forall_isLine hplace t ht)).statement
  case tryCatch =>
    obtain ⟨body, handler, finalizer, rfl⟩ := exists_three hcount
    rw [exists_mem_three] at h
    have hblock : body.kind = .block := beq_iff_eq.1 hplace
    have hend : Ending body := hlines body (by simp) (by rw [hblock]; rfl)
    exact hany (leads_tryCatch hS hend.blockOf (h.imp_left (·.found)))
  case handler =>
    obtain ⟨param, body, rfl⟩ := exists_two hcount
    rw [exists_mem_two] at h
    exact hany (leads_handler hS (h.imp_right (·.found)))
  case importDeclaration => exact (hinner hplace).elim
  case exportList => exact (hinner hplace).elim
  case exportDeclaration =>
    obtain ⟨item, rfl⟩ := exists_one hcount
    rw [exists_mem_one] at h
    exact hany (leads_exportDeclaration h.found)
  case exportDefault =>
    obtain ⟨value, rfl⟩ := exists_one hcount
    rw [exists_mem_one] at h
    exact hany (leads_exportDefault hS h.found)
  case program => exact hbare rfl (leads_program hS (hitems hplace) h)
  case shorthandDefault => cases hblocked
  all_goals
    first
    | cases hk.1; done
    | cases hk.2 .absent 0; done
    | obtain rfl : ts = [] := List.length_eq_zero_iff.1 (beq_iff_eq.1 hcount)
      obtain ⟨t, ht, -⟩ := h
      cases ht

omit hS in
theorem exists_mem_head {p : Tree → Prop} : (∃ u ∈ (t :: ts).head?, p u) ↔ p t := by simp

omit hS in
theorem exists_mem_single {p q : Tree → Prop} :
    ((∃ u ∈ [t].head?, p u) ∨ ∃ u ∈ [t].tail, q u) ↔ p t := by simp

omit hS in
theorem inside_of_not_isWrapped (hk : ∀ l, k.isWrapped l = false) : f.inside k = f := by
  cases f with
  | none => rfl
  | some l => simp [Front.inside, Option.filter, hk]

/-- A node that begins with its first child, or with points. -/
theorem leads_fronted (hcount : k.counts ts.length) (hplace : k.places (ts.map Tree.kind))
    (hc : ∀ l ∈ f, c.level = l) (hk : ¬ Spelled k)
    (h : (∃ t ∈ ts.head?, FoundAt S (f.first k t) t) ∨ ∃ u ∈ ts.tail, Seen S u) :
    Leads f.Starts (layout k s (ts.map part) c) S := by
  have hpoints {t : Tree} (h : FoundAt S (some Level.comma) t) :
      Leads f.Starts (seq [text "...", (part t).operand Level.comma]) S :=
    (leads_points h).imp fun _ => Front.sound_of_starts
  have hbare (hk : ∀ l, k.isWrapped l = false) : f.inside k = f := inside_of_not_isWrapped hk
  -- The first child is looked for where the node begins, the others behind a text of the node.
  cases k
  case tagged =>
    obtain ⟨tag, quasi, rfl⟩ := exists_two hcount
    rw [exists_mem_head, List.tail_cons, exists_mem_one, Front.first, hbare fun _ => rfl] at h
    refine leads_tagged hS (h.imp_right fun h => h.worded ?_ _)
    exact Bool.or_eq_true_iff.2 (Or.inl hplace)
  case spread =>
    obtain ⟨value, rfl⟩ := exists_one hcount
    exact hpoints (exists_mem_single.1 h)
  case rest =>
    obtain ⟨value, rfl⟩ := exists_one hcount
    exact hpoints (exists_mem_single.1 h)
  case targetRest =>
    obtain ⟨value, rfl⟩ := exists_one hcount
    exact hpoints (exists_mem_single.1 h)
  case call =>
    obtain ⟨callee, items, rfl⟩ := exists_cons hcount
    rw [exists_mem_head, List.tail_cons, Front.first, hbare fun _ => rfl] at h
    exact leads_call hS hc (h.imp_right .of_seen)
  case chainCall =>
    obtain ⟨callee, items, rfl⟩ := exists_cons hcount
    rw [exists_mem_head, List.tail_cons, Front.first, hbare fun _ => rfl] at h
    exact leads_call hS hc (h.imp_right .of_seen)
  case member =>
    obtain ⟨object, rfl⟩ := exists_one hcount
    rw [exists_mem_single, Front.first, hbare fun _ => rfl] at h
    exact leads_member hS h
  case privateMember =>
    obtain ⟨object, rfl⟩ := exists_one hcount
    rw [exists_mem_single, Front.first, hbare fun _ => rfl] at h
    exact leads_member hS h
  case index =>
    obtain ⟨object, i, rfl⟩ := exists_two hcount
    rw [exists_mem_head, List.tail_cons, exists_mem_one, Front.first, hbare fun _ => rfl] at h
    exact leads_index hS (h.imp_right (·.found))
  case chain =>
    obtain ⟨element, rfl⟩ := exists_one hcount
    rw [exists_mem_single] at h
    refine leads_chain hS hc ?_
    have hlevel : Kind.chain.firstLevel? element = some := rfl
    rwa [Front.first, hlevel, Option.bind_fun_some] at h
  case paren =>
    obtain ⟨inside, rfl⟩ := exists_one hcount
    rw [exists_mem_single, Front.first, hbare fun _ => rfl] at h
    rw [show Kind.paren.firstLevel? inside = some from rfl, Option.bind_fun_some] at h
    exact leads_paren hc h
  case update op isPrefix =>
    obtain ⟨target, rfl⟩ := exists_one hcount
    rw [exists_mem_single] at h
    cases isPrefix with
    | true => exact absurd ⟨rfl, fun _ _ => rfl⟩ hk
    | false => exact leads_postfixUpdate hS hc h
  case binary =>
    obtain ⟨left, right, rfl⟩ := exists_two hcount
    rw [exists_mem_head, List.tail_cons, exists_mem_one] at h
    exact leads_binary hS hc (h.imp_right (·.found))
  case assign =>
    obtain ⟨target, value, rfl⟩ := exists_two hcount
    rw [exists_mem_head, List.tail_cons, exists_mem_one] at h
    exact leads_assign hS hc (h.imp_right (·.found))
  case conditional =>
    obtain ⟨test, yes, no, rfl⟩ := exists_three hcount
    rw [exists_mem_head, List.tail_cons, exists_mem_two] at h
    exact leads_conditional hS hc (h.imp_right (·.imp (·.found) (·.found)))
  case sequence =>
    cases ts with
    | nil => simp at h
    | cons first others =>
      rw [exists_mem_head, List.tail_cons] at h
      exact leads_sequence hS hc (h.imp_right .of_seen)
  case asType =>
    obtain ⟨value, type, rfl⟩ := exists_two hcount
    rw [exists_mem_head, List.tail_cons, exists_mem_one] at h
    exact leads_asType hS hc (h.imp_right (·.found))
  case withDefault =>
    obtain ⟨pattern, value, rfl⟩ := exists_two hcount
    rw [exists_mem_head, List.tail_cons, exists_mem_one, Front.first, hbare fun _ => rfl] at h
    exact leads_withDefault hS (h.imp_right (·.found))
  case targetDefault =>
    obtain ⟨target, value, rfl⟩ := exists_two hcount
    rw [exists_mem_head, List.tail_cons, exists_mem_one, Front.first, hbare fun _ => rfl] at h
    exact leads_withDefault hS (h.imp_right (·.found))
  case typed =>
    obtain ⟨pattern, type, rfl⟩ := exists_two hcount
    rw [exists_mem_head, List.tail_cons, exists_mem_one, Front.first, hbare fun _ => rfl] at h
    exact leads_typed hS h
  all_goals exact absurd ⟨rfl, fun _ _ => rfl⟩ hk

/-! ### Trees -/

/-- The layout of a tree leads to whatever that of a visible call leads to. -/
theorem foundAt_of_visible (hx : Found S x) (h : WellShaped t) (hmem : x ∈ visible t f) :
    FoundAt S f t := by
  induction t generalizing f with
  | node k s ts ih =>
    obtain ⟨hcount, hplace, hts⟩ := wellShaped_node.1 h
    obtain ⟨hblocked, hown | hchild⟩ := mem_visible.1 hmem
    · obtain ⟨-, rfl, rfl⟩ := hown
      exact found_iff.2 hx
    have hseen {t : Tree} (ht : t ∈ ts) (hmem : x ∈ visible t none) : Seen S t := by
      refine ⟨found_iff.1 (ih t ht (hts t ht) hmem), ?_, fun hs => ?_, fun hw f => ?_⟩
      · exact Bool.eq_false_iff.2 fun hl => visible_of_isLeaf (hts t ht) hl hmem
      · exact visible_of_isString (hts t ht) hs hmem
      · exact ih t ht (hts t ht) (mem_visible_worded hw hmem f)
    intro c hc
    rw [within_part]
    by_cases hk : Spelled k
    · have hlines : ∀ t ∈ ts, t.kind.isLine → Ending t :=
        fun t ht => settles_of_isLine (hts t ht)
      refine leads_spelled hS hcount hplace hlines hk hblocked ?_
      rcases hchild with ⟨t, ht, hmem⟩ | ⟨t, ht, hmem⟩
      · have hfirst : f.first k t = none := by simp [Front.first, hk.1, hk.2]
        exact ⟨t, List.mem_of_head? ht, hseen (List.mem_of_head? ht) (hfirst ▸ hmem)⟩
      · exact ⟨t, List.mem_of_mem_tail ht, hseen (List.mem_of_mem_tail ht) hmem⟩
    · refine leads_fronted hS hcount hplace hc hk (hchild.imp ?_ ?_)
      · rintro ⟨t, ht, hmem⟩
        exact ⟨t, ht, ih t (List.mem_of_head? ht) (hts t (List.mem_of_head? ht)) hmem⟩
      · rintro ⟨t, ht, hmem⟩
        exact ⟨t, ht, hseen (List.mem_of_mem_tail ht) hmem⟩

end CallBridge.Script.Printer
