import CallBridge.Proofs.Replacement.Survivors
import CallBridge.Proofs.Script.Enclosure

/-!
# `await` and `yield` in replacements

What a replacement builds itself has no `await` or `yield` in it; the handler and the body that it
takes over may. Main statements: the wrapper of a handler is a plain function around what the handler
has (`placed_ofEvent`), and a request has what its body has, where the call stood, if a parameter
carries the body (`mem_placed_ofFetch`).
-/

namespace CallBridge.Replacement

open Json Pattern Script Text

/-! ### Nodes without placements -/

/-- A tree has no placements, wherever it stands. -/
def Still (t : Tree) : Prop := ∀ e, placed t e = []

/-- A node places what its children place, wherever it stands, if its kind is plain. -/
theorem Still.node {k : Kind} (hk : k.isPlain) {s : Span} {cs : List Tree} (h : ∀ t ∈ cs, Still t) :
    Still (.node k s cs) := fun e => by
  rw [placed_of_isPlain hk]
  exact List.flatMap_eq_nil_iff.2 fun t ht => h t ht e

theorem Still.leaf {k : Kind} (hk : k.isPlain) {s : Span} : Still (.node k s []) :=
  .node hk fun _ h => absurd h List.not_mem_nil

theorem still_stringNode (s : String) : Still (stringNode s) := .leaf rfl

theorem still_referenceNode (name : String) : Still (referenceNode name) := .leaf rfl

theorem still_numberNode (negative : Bool) (x : Number.Magnitude) :
    Still (numberNode negative x) := by
  unfold numberNode
  cases negative with
  | false => exact .leaf rfl
  | true => exact .node rfl (List.forall_mem_singleton.2 (.leaf rfl))

theorem still_propertyNode {key value : Tree} (hkey : Still key) (hvalue : Still value) :
    Still (propertyNode key value) := .node rfl (forall_mem_pair.2 ⟨hkey, hvalue⟩)

mutual

/-- A literal places nothing: there is no handler and no body in a JSON value. -/
theorem still_literalNode : ∀ v : Value, Still (literalNode v)
  | .null => .leaf rfl
  | .bool _ => .leaf rfl
  | .number (.int _) => still_numberNode _ _
  | .number (.real _) => still_numberNode _ _
  | .string s => still_stringNode s
  | .array items => .node rfl (still_literalItems items)
  | .object fields => .node rfl (still_literalFields fields)

theorem still_literalItems : ∀ vs : List Value, ∀ t ∈ literalItems vs, Still t
  | [] => fun _ h => absurd h List.not_mem_nil
  | v :: rest => List.forall_mem_cons.2 ⟨still_literalNode v, still_literalItems rest⟩

theorem still_literalFields : ∀ fields : List (String × Value), ∀ t ∈ literalFields fields, Still t
  | [] => fun _ h => absurd h List.not_mem_nil
  | (k, v) :: rest => List.forall_mem_cons.2
      ⟨still_propertyNode (still_stringNode k) (still_literalNode v), still_literalFields rest⟩

end

theorem still_keyNode (key : String) : Still (keyNode key) := by
  unfold keyNode
  split
  · exact .leaf rfl
  · exact still_stringNode key

theorem still_pathNode {first : Tree} (h : Still first) (members : List String) :
    Still (pathNode first members) := by
  induction members generalizing first with
  | nil => exact h
  | cons m rest ih => exact ih (.node rfl (List.forall_mem_singleton.2 h))

/-! ### What a replacement takes over -/

/-- A child of a plain node has placements that its node has. -/
theorem placed_child_subset {k : Kind} (hk : k.isPlain) {s : Span} {cs : List Tree} {t : Tree}
    (h : t ∈ cs) (e : Enclosure) : placed t e ⊆ placed (.node k s cs) e := by
  rw [placed_of_isPlain hk]
  exact fun p hp => List.mem_flatMap.2 ⟨t, h, hp⟩

/-- Parentheses place nothing of their own. -/
theorem placed_unparen (t : Tree) (e : Enclosure) : placed t.unparen e = placed t e := by
  induction t with
  | node k s cs ih =>
    by_cases h : ∃ t, k = .paren ∧ cs = [t]
    · obtain ⟨t, rfl, rfl⟩ := h
      rw [Tree.unparen_paren, ih t (List.mem_singleton_self t), placed_of_isPlain rfl]
      exact (List.append_nil _).symm
    · rw [Tree.unparen_node fun t hk hc => h ⟨t, hk, hc⟩]

/-- An argument of a call stands where the call stands. -/
theorem placed_argument_subset {t a : Tree} {c : Call} (hc : Call.ofTree? t = some c)
    (ha : a ∈ c.arguments) (e : Enclosure) : placed a e ⊆ placed t e := by
  obtain ⟨optional, rfl⟩ := Call.ofTree?_eq_some_iff.1 hc
  exact placed_child_subset rfl (List.mem_cons_of_mem _ ha) e

/-- What an option places is placed by the argument that holds it. -/
theorem placed_option_subset {c : Call} {name : String} {t : Tree} (h : c.option? name = some t) :
    ∃ a ∈ c.arguments, ∀ e, placed t e ⊆ placed a e := by
  unfold Call.option? at h
  split at h
  · next es hes =>
    obtain ⟨a, s, properties, ha, -, hobject, hentries⟩ := Call.options_eq_entries hes
    obtain ⟨before, after, rfl, -⟩ := List.lookup_eq_some_iff.1 h
    obtain ⟨p, hp, hentry⟩ := mem_of_mapM_entries (e := (name, t)) hentries (by simp)
    obtain ⟨form, s', key, rfl⟩ := entry?_eq_some hentry
    refine ⟨a, List.mem_of_getElem? ha, fun e => ?_⟩
    have hvalue : placed t e ⊆ placed (.node (.property form false) s' [key, t]) e :=
      placed_child_subset rfl (by simp) e
    rw [← placed_unparen a, hobject]
    exact List.Subset.trans hvalue (placed_child_subset rfl hp e)
  · cases h

/-- So it is with what a call of `JSON.stringify` holds. -/
theorem placed_stringified_subset {t u : Tree} (h : stringified? t = some u) (e : Enclosure) :
    placed u e ⊆ placed t e := by
  obtain ⟨c, hc, -, hu⟩ := stringified?_eq_some h
  rw [← placed_unparen t]
  exact placed_argument_subset hc (Call.argument?_mem hu) e

/-- The body of a request stands where its call stands. -/
theorem placed_body_subset {c : Call} {spec : BodySpec} {t : Tree}
    (h : bodyExpression? c spec = .ok (some t)) :
    ∃ a ∈ c.arguments, ∀ e, placed t e ⊆ placed a e := by
  cases spec with
  | absent =>
    rw [bodyExpression?] at h
    cases h
  | stringified =>
    cases hb : (c.option? "body").bind stringified? with
    | none => simp [bodyExpression?, hb] at h
    | some u =>
      obtain rfl : u = t := by simpa [bodyExpression?, hb] using h
      obtain ⟨body, hbody, hu⟩ := Option.bind_eq_some_iff.1 hb
      obtain ⟨a, ha, hsubset⟩ := placed_option_subset hbody
      exact ⟨a, ha, fun e => List.Subset.trans (placed_stringified_subset hu e) (hsubset e)⟩
  | raw =>
    cases hb : c.option? "body" with
    | none => simp [bodyExpression?, hb] at h
    | some u =>
      obtain rfl : u = t := by simpa [bodyExpression?, hb] using h
      exact placed_option_subset hb

/-! ### Built nodes -/

/-- What is around a handler in its wrapper. -/
def wrapperEnclosure : Enclosure := ⟨some (.arrow false, .none), false, false⟩

theorem placed_bare {k : Kind} (hk : k.isPlain) (cs : List Tree) (e : Enclosure) :
    placed (bare k cs) e = placedAll cs e := placed_of_isPlain hk

/-- The wrapper of a handler has the placements of the handler in a plain function. -/
theorem placed_wrapperNode (p : String) (handler : Tree) (e : Enclosure) :
    placed (wrapperNode p handler) e = placed handler wrapperEnclosure := by
  have hparams : Still (bare .parameters [bare (.binding p) []]) :=
    .node rfl (List.forall_mem_singleton.2 (.leaf rfl))
  have hreturn : Still (bare .returning [referenceNode p]) :=
    .node rfl (List.forall_mem_singleton.2 (still_referenceNode p))
  have hcall : placed (callNode handler [referenceNode p]) wrapperEnclosure =
      placed handler wrapperEnclosure := by
    rw [callNode, placed_bare rfl, placedAll_cons, placedAll_cons, still_referenceNode p,
      placedAll_nil, List.append_nil, List.append_nil]
  have hbody : placed (bare .body [bare .expressionStatement [callNode handler [referenceNode p]],
      bare .returning [referenceNode p]]) wrapperEnclosure = placed handler wrapperEnclosure := by
    rw [placed_bare rfl, placedAll_cons, placedAll_cons, hreturn, placed_bare rfl, placedAll_cons,
      hcall, placedAll_nil, List.append_nil, List.append_nil, List.append_nil]
  rw [wrapperNode, bare, placed_cons, hparams, placedAll_cons, placedAll_nil, List.append_nil]
  exact hbody

/-- Of a property only the value counts. -/
theorem placed_propertyNode {key : Tree} (hkey : Still key) (value : Tree) (e : Enclosure) :
    placed (propertyNode key value) e = placed value e := by
  rw [propertyNode, placed_bare rfl, placedAll_cons, placedAll_cons, hkey, placedAll_nil,
    List.append_nil, List.nil_append]

/-- Of the parameters of a request only those that carry the body place something. -/
theorem placed_paramNode (body : Tree) (q : String × Param) (e : Enclosure) :
    placed (paramNode body q) e = if carriesBody q then placed body e else [] := by
  obtain ⟨key, q⟩ := q
  cases q with
  | json v =>
    rw [paramNode, placed_propertyNode (still_keyNode key), still_literalNode v]
    rfl
  | body =>
    rw [paramNode, placed_propertyNode (still_keyNode key)]
    rfl
  | spread =>
    rw [paramNode, placed_bare rfl, placedAll_cons, placedAll_nil, List.append_nil]
    rfl

/-- The body places what it did before it was taken. -/
theorem placed_bodyNode (spec : BodySpec) (body : Option Tree) (e : Enclosure) :
    placed (bodyNode spec body) e = (body.map (placed · e)).getD [] := by
  have hinside : placed (body.getD (referenceNode bodyHole)) e =
      (body.map (placed · e)).getD [] := by
    cases body with
    | none => exact still_referenceNode bodyHole e
    | some b => rfl
  have hparse : Still (bare (.member "parse" false) [referenceNode "JSON"]) :=
    .node rfl (List.forall_mem_singleton.2 (still_referenceNode "JSON"))
  rw [← hinside]
  cases spec with
  | absent => rfl
  | stringified => rfl
  | raw =>
    simp only [bodyNode]
    rw [callNode, placed_bare rfl, placedAll_cons, placedAll_cons, hparse, placedAll_nil,
      List.append_nil, List.nil_append]

variable {platform : PlatformCalls} {c : Call} {new : Tree}

/-- With a dotted platform name, a replacement has the placements of its arguments. -/
theorem placed_invoke {name : String} (hd : (dottedPath? name).isSome) {arguments : List Tree}
    {text : List Char} {holes : Holes} (h : invoke name c arguments text holes = .ok new)
    (e : Enclosure) : placed new e = placedAll arguments e := by
  obtain ⟨⟨first, members⟩, hpath⟩ := Option.isSome_iff_exists.1 hd
  rw [invoke, hpath] at h
  obtain rfl := Except.ok.inj h
  have hcallee : Still (pathNode (.node (.reference first) (anchorSpan c) []) members) :=
    still_pathNode (.leaf rfl) members
  rw [placed_of_isPlain rfl, placedAll_cons, hcallee, List.nil_append]

/-- The handler of an event is all that its replacement places, and it stands in the wrapper. -/
theorem placed_ofEvent (hd : (dottedPath? platform.eventRegistration).isSome) {i : Nat}
    {handler : Tree} (hhandler : c.argument? i = some handler) {name : String}
    (h : ofEvent platform c i name = .ok new) (e : Enclosure) :
    placed new e = placed handler wrapperEnclosure := by
  simp only [ofEvent, hhandler] at h
  rw [placed_invoke hd h, placedAll_cons, placedAll_cons, still_stringNode, placed_wrapperNode,
    placedAll_nil, List.append_nil, List.nil_append]

/-- The placements in the replacement of a request are those of the body, if a parameter carries
it. -/
theorem mem_placed_ofFetch (hd : (dottedPath? platform.apiInvocation).isSome) {spec : BodySpec}
    {body : Option Tree} (hbody : bodyExpression? c spec = .ok body) {url method : String}
    {m : ApiMapping} (h : ofFetch platform c url spec method m = .ok new) {e : Enclosure}
    {p : Placement} :
    p ∈ placed new e ↔
      (∃ q ∈ (m.transform.request ⟨url, method, body.map fun _ => .deferred⟩).params,
        carriesBody q) ∧ ∃ b ∈ body, p ∈ placed b e := by
  simp only [ofFetch, hbody, bind, Except.bind] at h
  rw [placed_invoke hd h, placedAll_cons, placedAll_cons, placedAll_cons, still_stringNode,
    still_stringNode, placedAll_nil, List.append_nil, List.nil_append, List.nil_append,
    placed_bare rfl, placedAll, List.flatMap_map, List.mem_flatMap]
  simp only [placed_paramNode, placed_bodyNode]
  constructor
  · rintro ⟨q, hq, hp⟩
    cases hcarries : carriesBody q with
    | false => simp [hcarries] at hp
    | true =>
      rw [hcarries, if_pos rfl] at hp
      cases body with
      | none => cases hp
      | some b => exact ⟨⟨q, hq, hcarries⟩, b, rfl, hp⟩
  · rintro ⟨⟨q, hq, hcarries⟩, b, hb, hp⟩
    obtain rfl : body = some b := hb
    exact ⟨q, hq, by rw [hcarries, if_pos rfl]; exact hp⟩

end CallBridge.Replacement
