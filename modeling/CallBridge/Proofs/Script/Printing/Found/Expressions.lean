import CallBridge.Proofs.Script.Printing.Visible
import CallBridge.Proofs.Script.Shape

/-!
# Children found in expressions

A tree is found at a place (`FoundAt`) when its layout leads to what is looked for from every state
of printing there. The layout of a node leads there when that of a child does: from every sound
state where the node begins with text of its own, and from the states of the first child where it
begins with that.
-/

namespace CallBridge.Script.Printer

/-- A tree with its layout. -/
def part (t : Tree) : Part := (t, t.fold layout)

/-- The layout of a node is the one of its kind, given its children with theirs. -/
theorem within_part (k : Kind) (s : Span) (ts : List Tree) (c : Ctx) :
    (part (.node k s ts)).within c = layout k s (ts.map part) c := by
  rw [part, Part.within, Tree.fold_node]
  rfl

/-- The layout of a tree that has something or nothing in front of it leads to what is looked for. -/
def FoundAt (S : Out → Prop) (f : Front) (t : Tree) : Prop :=
  ∀ c : Ctx, (∀ l ∈ f, c.level = l) → Leads f.Starts ((part t).within c) S

/-- The layout of a tree leads to what is looked for where no points are in front of it. -/
def Found (S : Out → Prop) (t : Tree) : Prop := ∀ c, Leads Out.Open ((part t).within c) S

/-- Whether a tree is a statement that is nothing but a string. -/
def IsString (t : Tree) : Prop :=
  ∃ s inner value, t = .node .expressionStatement s [inner] ∧ inner.unparen.kind = .string value

/-- A tree is found whose own layout is printed wherever it is: no name or literal, nothing that is
left out, and no string that stands for a statement. Templates and functions begin with a text of
their own, so they are found behind points as well. -/
structure Seen (S : Out → Prop) (t : Tree) : Prop where
  found : Found S t
  inner : t.kind.isLeaf = false
  code : ¬ IsString t
  worded : t.kind.isTemplate || t.kind.isFunction → ∀ f, FoundAt S f t

/-- One of some trees is found. -/
def FoundIn (S : Out → Prop) (ts : List Tree) : Prop := ∃ t ∈ ts, Found S t

namespace Grows

/-- Whatever a tree is printed in, its layout takes nothing back. -/
@[simp] theorem within (t : Tree) (c : Ctx) : Grows ((part t).within c) := grows_fold t c

@[simp] theorem operand (t : Tree) (l : Level) : Grows ((part t).operand l) := grows_fold t _

@[simp] theorem whole (t : Tree) : Grows (part t).whole := grows_fold t _

end Grows

/-- A tree is laid out as itself, so what is proved of pairs of layouts is proved of one. -/
theorem matches_part (t : Tree) :
    Matches (fun d d' => Grows d ∧ Grows d') (part t) (part t) :=
  ⟨rfl, fun c => ⟨.within t c, .within t c⟩⟩

theorem matches_parts (ts : List Tree) :
    List.Forall₂ (Matches fun d d' => Grows d ∧ Grows d') (ts.map part) (ts.map part) :=
  List.forall₂_same.2 (List.forall_mem_map.2 fun t _ => matches_part t)

section Fronts

variable {f : Front} {o : Out}

/-- Wherever something may begin, the text in front is sound. -/
theorem Front.sound_of_starts (h : f.Starts o) : o.Sound := by
  cases f with
  | none => exact h.sound
  | some l => exact h

/-- From where a name is found, anything may begin. -/
theorem Front.starts_of_open (h : o.Open) : f.Starts o := by
  cases f with
  | none => exact h
  | some l => exact h.sound

end Fronts

variable {pre S : Out → Prop} (hS : Lasting S) {d : Doc} {ds : List Doc} {f : Front} {k : Kind}
  {t u v : Tree} {ts : List Tree} {c : Ctx} {l : Level} {s : Span}

/-- With nothing in front of it, a tree may be found in any surroundings. -/
theorem found_iff : FoundAt S none t ↔ Found S t := ⟨fun h c => h c nofun, fun h c _ => h c⟩

theorem Found.operand (h : Found S t) (l : Level) : Leads Out.Open ((part t).operand l) S := h _

theorem Found.whole (h : Found S t) : Leads Out.Open (part t).whole S := h _

theorem FoundIn.of_seen (h : ∃ t ∈ ts, Seen S t) : FoundIn S ts :=
  h.imp fun _ ⟨ht, hseen⟩ => ⟨ht, hseen.found⟩

/-- What is seen is printed. -/
theorem Seen.isAbsent (h : Seen S t) : (part t).isAbsent = false := by
  have hinner := h.inner
  obtain ⟨k, s, ts⟩ := t
  cases k <;> first | rfl | cases hinner

/-- The first child of a node, at its level. -/
theorem FoundAt.first (h : FoundAt S (f.bind fun _ => some l) t) (hc : c.level = l) :
    Leads f.Starts ((part t).within c) S := by
  cases f with
  | none => exact h c nofun
  | some l' => exact h c fun l' hl => by rw [hc]; exact Option.some.inj hl

/-! ### Alternatives -/

namespace Leads

include hS

/-- What is looked for comes from the first step, or from the others whatever it does. -/
theorem either (h : Leads pre d S ∨ Leads Out.Sound (seq ds) S) (hpre : ∀ o, pre o → o.Sound)
    (hd : Grows d) (hds : ∀ e ∈ ds, Grows e) : Leads pre (seq (d :: ds)) S :=
  h.elim (here hS · hds) fun h => (pass hd h).imp hpre

/-- What is looked for comes from a step behind one that settles, or from later ones. -/
theorem behind {e : Doc} (he : Settles e) (h : Leads Out.Open d S ∨ Leads Out.Sound (seq ds) S)
    (hd : Grows d) (hds : ∀ e ∈ ds, Grows e) : Leads Out.Sound (seq (e :: d :: ds)) S :=
  step he (either hS h (fun _ ho => ho.sound) hd hds)

/-- What is looked for comes from one of some steps, whatever stands in front of it. -/
theorem among (h : Leads Out.Sound d S) (hd : d ∈ ds) (hds : ∀ e ∈ ds, Grows e) :
    Leads Out.Sound (seq ds) S := by
  induction ds with
  | nil => exact absurd hd List.not_mem_nil
  | cons e ds ih =>
    obtain ⟨he, hrest⟩ := List.forall_mem_cons.1 hds
    rcases List.mem_cons.1 hd with rfl | hd
    · exact here hS h hrest
    · exact pass he (ih hd hrest)

end Leads

include hS

/-- What is looked for is found in parentheses as well, and only they take points away. -/
theorem leads_wrap {b : Bool} (hc : ∀ l ∈ f, c.level = l) (hb : k.isWrapped c.level → b)
    (h : Leads (f.inside k).Starts d S) : Leads f.Starts (wrap b d) S := by
  refine .wrap hS (fun _ => h.imp fun o => Front.starts_of_open) (fun hbare => ?_)
    fun o => Front.sound_of_starts
  refine h.imp fun o ho => ?_
  cases f with
  | none => exact ho
  | some l =>
    obtain rfl := hc l rfl
    have hk : k.isWrapped c.level = false := by
      cases hk : k.isWrapped c.level with
      | false => rfl
      | true => simp [hb hk] at hbare
    simpa [Front.inside, Option.filter, hk] using ho

/-! ### Lists -/

/-- One of some items with commas between them is found behind a comma or where the items begin. -/
theorem leads_commas {g : Tree → Doc} (h : FoundIn S ts) (hgrows : ∀ t, Grows (g t))
    (hg : ∀ t, Found S t → Leads Out.Open (g t) S) : Leads Out.Open (commas (ts.map g)) S := by
  obtain ⟨t, ht, hfound⟩ := h
  exact .commas hS (by simpa using fun t _ => hgrows t) (List.mem_map_of_mem ht) (hg t hfound)

theorem leads_operands (h : FoundIn S ts) (l : Level) :
    Leads Out.Open (commas ((ts.map part).map (·.operand l))) S := by
  rw [List.map_map]
  exact leads_commas hS h (fun t => .operand t l) fun t ht => ht.operand l

/-- Arguments stand behind a parenthesis or a comma. -/
theorem leads_arguments (h : FoundIn S ts) : Leads Out.Sound (arguments (ts.map part)) S :=
  .step (settles_text "(" (by decide)) (.here hS (leads_operands hS h _) (by simp))

/-- The substitutions of a template stand behind braces of their own. -/
theorem leads_template {quasis : List Quasi} (hlength : ts.length + 1 = quasis.length)
    (h : FoundIn S ts) : Leads Out.Sound (template quasis (ts.map part)) S := by
  obtain ⟨t, ht, hfound⟩ := h
  obtain ⟨q, hq⟩ : ∃ q, (part t, q) ∈ (ts.map part).zip quasis.tail := by
    have hfst : ((ts.map part).zip quasis.tail).map Prod.fst = ts.map part :=
      List.map_fst_zip (by simp; omega)
    have hmem : part t ∈ ((ts.map part).zip quasis.tail).map Prod.fst := by
      rw [hfst]
      exact List.mem_map_of_mem ht
    obtain ⟨⟨p, q⟩, hq, rfl⟩ := List.mem_map.1 hmem
    exact ⟨q, hq⟩
  have hpieces : ∀ q : Quasi, Grows (chars (breakScript q.raw.toList)) := fun q => .chars _
  have hholes : ∀ p ∈ (ts.map part).zip quasis.tail,
      Grows (seq [text "$\x7b", p.1.whole, text "\x7d", chars (breakScript p.2.raw.toList)]) := by
    rintro ⟨p, q⟩ hp
    obtain ⟨t, -, rfl⟩ := List.mem_map.1 (List.of_mem_zip hp).1
    exact .seq (by simp)
  refine .pass (.text _) (.pass (.seq (by simp)) (.here hS ?_ (by simp)))
  refine .among hS ?_ (List.mem_map_of_mem hq) (List.forall_mem_map.2 hholes)
  exact .step (settles_text "$\x7b" (by decide)) (.here hS hfound.whole (by simp))

/-- One of some steps, each on a line of its own. -/
theorem leads_itemLines (h : ∃ d ∈ ds, Leads Out.Open d S) (hds : ∀ d ∈ ds, Grows d) :
    Leads Out.Sound (itemLines ds) S := by
  have hline (first : Bool) {d : Doc} (hd : Grows d) : Grows (itemLine first d) :=
    .seq (by simp [hd])
  have hfound (first : Bool) {d : Doc} (hd : Leads Out.Open d S) :
      Leads Out.Sound (itemLine first d) S :=
    .pass (by simp) (.step settles_newline (.step (fun o ho => leads_indent o ho.ready) (.last hd)))
  obtain ⟨d, hd, hlead⟩ := h
  cases ds with
  | nil => exact absurd hd List.not_mem_nil
  | cons e ds =>
    obtain ⟨he, hrest⟩ := List.forall_mem_cons.1 hds
    have hlines : ∀ e ∈ ds.map (itemLine false), Grows e :=
      List.forall_mem_map.2 fun e h => hline false (hrest e h)
    refine .here hS (.nested hS ?_ fun _ _ ho => ho) (by simp)
    rcases List.mem_cons.1 hd with rfl | hd
    · exact .here hS (hfound true hlead) hlines
    · exact .pass (hline true he) (.among hS (hfound false hlead) (List.mem_map_of_mem hd) hlines)

/-- The elements of an array stand behind a bracket, a comma or an indentation, whether or not they
are on lines of their own. -/
theorem leads_array (h : FoundIn S ts) : Leads Out.Sound (array (ts.map part)) S := by
  have hgrows : ∀ d ∈ elements (ts.map part), Grows d := fun d hd =>
    (List.forall₂_same.1 (congruent_grows.elements (matches_parts ts)) d hd).1
  have hfound : ∃ d ∈ elements (ts.map part), Leads Out.Open d S := by
    obtain ⟨t, ht, hfound⟩ := h
    obtain ⟨init, last, rfl⟩ : ∃ init last, ts = init ++ [last] :=
      ⟨_, _, (List.dropLast_append_getLast (List.ne_nil_of_mem ht)).symm⟩
    have helements : elements ((init ++ [last]).map part) =
        (init.map part).map (·.operand Level.comma) ++ [seq [(part last).operand Level.comma,
          onlyIf ((part last).tree.kind == .hole) (text ",")]] := by
      simp [elements]
    rw [helements]
    rcases List.mem_append.1 ht with hinit | hlast
    · refine ⟨_, List.mem_append_left _ (List.mem_map_of_mem (List.mem_map_of_mem hinit)), ?_⟩
      exact hfound.operand _
    · obtain rfl := List.mem_singleton.1 hlast
      refine ⟨_, List.mem_append_right _ (List.mem_singleton_self _), ?_⟩
      exact .here hS (hfound.operand _) (by simp)
  have hinside : Leads Out.Open (if 2 < (ts.map part).length then itemLines (elements (ts.map part))
      else commas (elements (ts.map part))) S := by
    split
    · exact (leads_itemLines hS hfound hgrows).ofOpen
    · obtain ⟨d, hd, hlead⟩ := hfound
      exact .commas hS hgrows hd hlead
  exact .step (settles_text "[" (by decide)) (.here hS hinside (by simp))

/-- The same goes for an object, which may be in parentheses itself. -/
theorem leads_object (h : FoundIn S ts) : Leads Out.Sound (object (ts.map part)) S := by
  intro o ho
  unfold object
  extract_lets docs inside
  have hgrows : ∀ d ∈ docs, Grows d := by simp [docs]
  obtain ⟨d, hd, hlead⟩ : ∃ d ∈ docs, Leads Out.Open d S := by
    obtain ⟨t, ht, hfound⟩ := h
    exact ⟨_, List.mem_map_of_mem (List.mem_map_of_mem ht), hfound.operand _⟩
  have hinside : Leads Out.Sound inside S := by
    dsimp only [inside]
    clear_value docs
    split
    · exact absurd hd List.not_mem_nil
    · obtain rfl := List.mem_singleton.1 hd
      exact .step (settles_text " " (by decide)) (.here hS hlead (by simp))
    · exact leads_itemLines hS ⟨d, hd, hlead⟩ hgrows
  have hbraces := Leads.pass (.text "\x7b")
    (.here hS hinside (by simp : ∀ e ∈ [text "\x7d"], Grows e))
  exact Leads.wrap hS (fun _ => hbraces.ofOpen) (fun _ => hbraces) (fun _ h => h) o ho

/-! ### Properties -/

/-- A key in brackets stands behind a bracket. -/
theorem leads_key (h : Found S t) (computed : Bool) : Leads Out.Open (key (part t) computed) S := by
  unfold key
  dsimp only
  split
  · exact .ofOpen (.step (settles_text "[" (by decide)) (.here hS (h.operand _) (by simp)))
  · exact h.operand _

omit hS in
theorem Grows.key (t : Tree) (computed : Bool) : Grows (key (part t) computed) :=
  (congruent_grows.key (matches_part t) computed).1

omit hS in
/-- The words in front of a key end in a space or a star. -/
theorem leads_methodWords (form : MethodForm) (v : Tree) :
    Leads Out.Open (methodWords form v) Out.Open := by
  have honly (b : Bool) (s : String) (hs : Settles (text s)) :
      Leads Out.Open (onlyIf b (text s)) Out.Open := by
    cases b with
    | false => exact fun o ho => ho
    | true => exact hs.ofOpen
  unfold methodWords
  extract_lets accessor
  have haccessor : Leads Out.Open accessor Out.Open := by
    cases form with
    | method => exact fun o ho => ho
    | getter => exact (settles_text "get " (by decide)).ofOpen
    | setter => exact (settles_text "set " (by decide)).ofOpen
  split
  · refine .step haccessor (.step (honly _ _ (settles_text "async " (by decide))) (.last ?_))
    exact honly _ _ (settles_text "*" (by decide))
  · exact haccessor

/-- The value of a method begins with a parenthesis. -/
theorem leads_method {form : MethodForm} {computed : Bool}
    (h : Found S t ∨ FoundAt S (some Ctx.statement.level) u) :
    Leads Out.Open (method form (part t) (part u) computed) S := by
  refine .step (leads_methodWords form _) ?_
  refine .either hS ?_ (fun _ ho => ho.sound) (.key t _) (by simp)
  exact h.imp (leads_key hS · _) fun h => .last (h _ fun l hl => Option.some.inj hl)

/-- The key that a name alone stands for is not printed, and has no calls. -/
theorem leads_property {form : PropertyForm} {computed : Bool}
    (hform : Kind.isMethodForm form = false) (h : Seen S t ∨ Found S u) :
    Leads Out.Open (property form computed (part t) (part u)) S := by
  have hpair : Leads Out.Open (if isShorthand form computed t u then (part u).operand Level.comma
      else seq [key (part t) computed, text ": ", (part u).operand Level.comma]) S := by
    split
    · next hshort =>
      refine h.elim (fun h => ?_) (·.operand _)
      have hinner := h.inner
      unfold isShorthand at hshort
      split at hshort
      · next hkey _ =>
        rw [hkey] at hinner
        cases hinner
      · cases hshort
    · refine .either hS (h.imp (fun h => leads_key hS h.found _) fun h => ?_) (fun _ ho => ho.sound)
        (.key t _) (by simp)
      exact .step (settles_text ": " (by decide)) (.last (h.operand _))
  cases form with
  | init => exact hpair
  | shorthand => exact hpair
  | _ => cases hform

/-! ### Members and calls -/

/-- What begins the object begins the member. -/
theorem leads_member {name : String} {optional : Bool}
    (h : FoundAt S (f.bind fun _ => some Level.postfixed) t) :
    Leads f.Starts (member (part t) name optional c) S :=
  .here hS (h.first rfl) (by simpa using (congruent_grows.point optional).1)

/-- The expression of an index stands behind a bracket. -/
theorem leads_index {optional : Bool}
    (h : FoundAt S (f.bind fun _ => some Level.postfixed) t ∨ Found S u) :
    Leads f.Starts (index (part t) (part u) optional c) S := by
  refine .either hS (h.imp (fun h => h.first rfl) fun h => ?_) (fun _ => Front.sound_of_starts)
    (by simp) (by simp)
  exact .pass (by simp) (.step (settles_text "[" (by decide)) (.here hS h.whole (by simp)))

omit hS in
theorem Grows.arguments (ts : List Tree) : Grows (arguments (ts.map part)) :=
  (congruent_grows.arguments (matches_parts ts)).1

/-- A callee begins its call; the arguments stand behind a parenthesis. -/
theorem leads_call {optional : Bool} (hc : ∀ l ∈ f, c.level = l)
    (h : FoundAt S (f.bind fun _ => some Level.postfixed) t ∨ FoundIn S ts) :
    Leads f.Starts (call (part t) (ts.map part) optional c) S := by
  refine leads_wrap hS (k := .call optional) hc nofun ?_
  rw [show f.inside (.call optional) = f by cases f <;> rfl]
  refine .either hS (h.imp (fun h => h.first rfl) fun h => ?_) (fun _ => Front.sound_of_starts)
    (by simp) (by simp [Grows.arguments])
  exact .pass (by simp) (.last (leads_arguments hS h))

theorem leads_new (h : Found S t ∨ FoundIn S ts) :
    Leads Out.Sound (new (part t) (ts.map part) c) S := by
  have hnew : Leads Out.Sound (seq [word "new", text " ",
      (part t).within { Ctx.operand Level.new with noCall := true }, arguments (ts.map part)]) S :=
    .pass (by simp) (.behind hS (settles_text " " (by decide))
      (h.imp (· _) fun h => .last (leads_arguments hS h)) (by simp) (by simp [Grows.arguments]))
  exact .wrap hS (fun _ => hnew.ofOpen) (fun _ => hnew) fun _ h => h

theorem leads_importCall (h : FoundIn S ts) : Leads Out.Sound (importCall (ts.map part) c) S := by
  have himport : Leads Out.Sound (seq [word "import", arguments (ts.map part)]) S :=
    .pass (by simp) (.last (leads_arguments hS h))
  exact .wrap hS (fun _ => himport.ofOpen) (fun _ => himport) fun _ h => h

theorem leads_chain (hc : ∀ l ∈ f, c.level = l)
    (h : FoundAt S (f.inside .chain) t) : Leads f.Starts (chain (part t) c) S :=
  leads_wrap hS (k := .chain) hc id (h c fun l hl => hc l (Option.mem_filter_iff.1 hl).1)

omit hS in
theorem leads_paren (hc : ∀ l ∈ f, c.level = l) (h : FoundAt S f t) :
    Leads f.Starts (paren (part t) c) S := h _ hc

/-! ### Operators -/

theorem leads_unary {op : UnaryOp} (h : Found S t) : Leads Out.Sound (unary op (part t) c) S := by
  have hsign : Settles (if op.isWord then seq [word op.text, text " "]
      else seq [spaceBeforeSign op.text, text op.text, rememberSign op.text]) := by
    split
    · exact .pass (by simp) (.last (settles_text " " (by decide)))
    · refine .pass (congruent_grows.spaceBeforeSign _).1 (.step (m := Out.Open) ?_ (.last ?_))
      · cases op <;> exact settles_text _ (by decide)
      · exact fun o ho => ⟨ho.sound, ho.head⟩
  have hunary := Leads.step hsign (.last (h (c.withLevel Level.power)))
  exact .wrap hS (fun _ => hunary.ofOpen) (fun _ => hunary) fun _ h => h

theorem leads_prefixUpdate {op : UpdateOp} (h : Found S t) :
    Leads Out.Sound (update op true (part t) c) S := by
  have hsign : Settles (text op.text) := by cases op <;> exact settles_text _ (by decide)
  have hupdate := Leads.pass (congruent_grows.spaceBeforeSign op.text).1
    (.step hsign (.last (h (c.withLevel Level.prefixed))))
  exact .wrap hS (fun _ => hupdate.ofOpen) (fun _ => hupdate) fun _ h => h

theorem leads_postfixUpdate {op : UpdateOp} (hc : ∀ l ∈ f, c.level = l)
    (h : FoundAt S ((f.inside (.update op false)).bind fun _ => some Level.postfixed) t) :
    Leads f.Starts (update op false (part t) c) S :=
  leads_wrap hS (k := .update op false) hc id (.here hS (h.first rfl) (by simp))

theorem leads_tagged (h : FoundAt S (f.bind fun _ => some Level.postfixed) t ∨
    FoundAt S (some Level.lowest) u) :
    Leads f.Starts (seq [(part t).operand Level.postfixed, (part u).whole]) S := by
  refine .either hS (h.imp (fun h => h.first rfl) fun h => .last ?_)
    (fun _ => Front.sound_of_starts) (by simp) (by simp)
  exact h _ fun l hl => Option.some.inj hl

theorem leads_binary {op : BinaryOp} (hc : ∀ l ∈ f, c.level = l)
    (h : FoundAt S ((f.inside (.binary op)).bind fun _ => some (leftLevel op t)) t ∨ Found S u) :
    Leads f.Starts (binary op (part t) (part u) c) S := by
  refine leads_wrap hS (k := .binary op) hc (fun hw => Bool.or_eq_true_iff.2 (Or.inl hw)) ?_
  refine .either hS (h.imp (fun h => h.first rfl) fun h => ?_) (fun _ => Front.sound_of_starts)
    (by simp) (by simp)
  exact .pass (by simp) (.pass (by simp) (.step (settles_text " " (by decide)) (.last (h _))))

theorem leads_conditional (hc : ∀ l ∈ f, c.level = l)
    (h : FoundAt S ((f.inside .conditional).bind fun _ => some Level.conditional) t ∨ Found S u ∨
      Found S v) :
    Leads f.Starts (conditional (part t) (part u) (part v) c) S := by
  refine leads_wrap hS (k := .conditional) hc id ?_
  refine .either hS (h.imp (fun h => h.first rfl) fun h => ?_) (fun _ => Front.sound_of_starts)
    (by simp) (by simp)
  refine .behind hS (settles_text " ? " (by decide)) (h.imp (·.operand _) fun h => ?_) (by simp)
    (by simp)
  exact .step (settles_text " : " (by decide)) (.last (h _))

/-- The target begins the assignment, and the value stands behind a blank. -/
theorem leads_assign {op : AssignOp} (hc : ∀ l ∈ f, c.level = l)
    (h : FoundAt S ((f.inside (.assign op)).bind fun _ => some Level.comma) t ∨ Found S u) :
    Leads f.Starts (assign op (part t) (part u) c) S := by
  have hassign : Leads (f.inside (.assign op)).Starts (seq [(part t).operand Level.comma, text " ",
      text op.text, text " ", (part u).within (c.withLevel Level.comma)]) S := by
    refine .either hS (h.imp (fun h => h.first rfl) fun h => ?_) (fun _ => Front.sound_of_starts)
      (by simp) (by simp)
    exact .pass (by simp) (.pass (by simp) (.step (settles_text " " (by decide)) (.last (h _))))
  exact fun o ho => leads_wrap hS (k := .assign op) hc
    (fun hw => Bool.or_eq_true_iff.2 (Or.inl hw)) hassign o ho

/-- The first part begins the sequence; the others stand behind commas. -/
theorem leads_sequence (hc : ∀ l ∈ f, c.level = l)
    (h : FoundAt S ((f.inside .sequence).bind fun _ => some Level.lowest) t ∨ FoundIn S ts) :
    Leads f.Starts (sequence ((t :: ts).map part) c) S := by
  refine leads_wrap hS (k := .sequence) hc id ?_
  rw [List.map_map, List.map_cons]
  rcases h with h | ⟨u, hu, h⟩
  · exact .separatedFirst hS (h.first rfl) (by simp) (by simp)
  · refine (Leads.separatedNext hS (settles_text ", " (by decide)) (.text _) (.within _ _) (by simp)
      (List.mem_map_of_mem hu) (h _)).imp fun _ => Front.sound_of_starts

/-- The operand stands behind a blank. -/
theorem leads_await (h : Found S t) : Leads Out.Sound (await (part t) c) S := by
  have hawait : Leads Out.Sound (seq [word "await", text " ",
      (part t).within (c.withLevel Level.power)]) S :=
    .pass (by simp) (.step (settles_text " " (by decide)) (.last (h _)))
  exact .wrap hS (fun _ => hawait.ofOpen) (fun _ => hawait) fun _ h => h

theorem leads_yield {delegate : Bool} (h : Found S t) :
    Leads Out.Sound (yield delegate (some (part t)) c) S := by
  have hyield : Leads Out.Sound (seq [word "yield", onlyIf delegate (text "*"),
      seq [text " ", (part t).operand Level.yield]]) S :=
    .pass (by simp) (.pass (by simp)
      (.last (.step (settles_text " " (by decide)) (.last (h.operand _)))))
  exact .wrap hS (fun _ => hyield.ofOpen) (fun _ => hyield) fun _ h => h

/-- The expression begins the assertion; the type stands behind a blank. -/
theorem leads_asType (hc : ∀ l ∈ f, c.level = l)
    (h : FoundAt S ((f.inside .asType).bind fun _ => some Level.power) t ∨ Found S u) :
    Leads f.Starts (asType (part t) (part u) c) S := by
  refine leads_wrap hS (k := .asType) hc (by simp [Kind.isWrapped]) ?_
  refine .either hS (h.imp (fun h => h.first rfl) fun h => ?_) (fun _ => Front.sound_of_starts)
    (by simp) (by simp)
  exact .step (settles_text " as " (by decide)) (.last h.whole)

omit hS in
/-- Behind points only that matters which level the spread one is printed at. -/
theorem leads_points (h : FoundAt S (some Level.comma) t) :
    Leads Out.Sound (seq [text "...", (part t).operand Level.comma]) S :=
  .pass (by simp) (.last (h _ fun _ hl => Option.some.inj hl))

end CallBridge.Script.Printer
