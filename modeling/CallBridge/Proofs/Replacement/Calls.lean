import CallBridge.Proofs.Api.Body
import CallBridge.Proofs.Pattern.Parts
import CallBridge.Proofs.Pattern.Recognition
import CallBridge.Replacement.Basic

/-!
# Calls in built nodes

How many calls of a kind stand in a tree (`callsWhere`), and what building a replacement adds to
them: a literal has none, a platform name has none, the wrapper of a handler is one call around the
handler, a body that is read when the call is made is one call around the body. Main statements: the
calls in the replacement of a registration (`callsWhere_ofEvent`) and of a request
(`callsWhere_ofFetch`) when the platform's names are dotted.
-/

namespace CallBridge.Replacement

open Json Pattern Script Text

variable (q : Call → Bool)

/-- The number of calls in a tree that fit a predicate. -/
def callsWhere (t : Tree) : Nat := t.subtrees.countP fun u => (Call.ofTree? u).any q

/-- The number of calls in several trees that fit a predicate. -/
def callsWhereAll (ts : List Tree) : Nat := (ts.map (callsWhere q)).sum

@[simp] theorem callsWhereAll_nil : callsWhereAll q [] = 0 := rfl

@[simp] theorem callsWhereAll_cons (t : Tree) (ts : List Tree) :
    callsWhereAll q (t :: ts) = callsWhere q t + callsWhereAll q ts := by
  rw [callsWhereAll, List.map_cons, List.sum_cons]
  rfl

theorem callsWhere_node (k : Kind) (s : Span) (cs : List Tree) :
    callsWhere q (.node k s cs) =
      (if (Call.ofTree? (.node k s cs)).any q then 1 else 0) + callsWhereAll q cs :=
  Tree.countP_subtrees ..

/-- A node that is no call has the calls of its children. -/
theorem callsWhere_of_no_call {k : Kind} {s : Span} {cs : List Tree}
    (h : Call.ofTree? (.node k s cs) = none) :
    callsWhere q (.node k s cs) = callsWhereAll q cs := by
  rw [callsWhere_node, h]
  exact Nat.zero_add _

/-- A call counts besides the calls of its parts. -/
theorem callsWhere_call {t : Tree} {c : Call} (h : Call.ofTree? t = some c) :
    callsWhere q t = (if q c then 1 else 0) + callsWhereAll q (c.callee :: c.arguments) := by
  obtain ⟨optional, rfl⟩ := Call.ofTree?_eq_some_iff.1 h
  rw [callsWhere_node, h]
  rfl

theorem callsWhere_eq_zero_iff {t : Tree} :
    callsWhere q t = 0 ↔ ∀ u ∈ t.subtrees, ∀ c, Call.ofTree? u = some c → q c = false := by
  rw [callsWhere, List.countP_eq_zero]
  refine forall₂_congr fun u _ => ?_
  cases Call.ofTree? u with
  | none => simp
  | some c => simp

/-! ### Nodes without a span -/

theorem callsWhere_bare (k : Kind) (cs : List Tree) (hk : ∀ optional, k ≠ .call optional) :
    callsWhere q (bare k cs) = callsWhereAll q cs :=
  callsWhere_of_no_call q (Call.ofTree?_node_eq_none hk)

@[simp] theorem callsWhere_stringNode (s : String) : callsWhere q (stringNode s) = 0 :=
  callsWhere_bare q (.string ⟨s, false⟩) [] nofun

@[simp] theorem callsWhere_referenceNode (name : String) :
    callsWhere q (referenceNode name) = 0 :=
  callsWhere_bare q (.reference name) [] nofun

theorem callsWhere_numberNode (negative : Bool) (x : Number.Magnitude) :
    callsWhere q (numberNode negative x) = 0 := by
  have hn : callsWhere q (bare (.number x) []) = 0 := callsWhere_bare q (.number x) [] nofun
  unfold numberNode
  simp only
  split
  · rw [callsWhere_bare q (.unary .negate) _ nofun, callsWhereAll_cons, hn]
    rfl
  · exact hn

theorem callsWhere_propertyNode (key value : Tree) :
    callsWhere q (propertyNode key value) = callsWhere q key + callsWhere q value := by
  rw [propertyNode, callsWhere_bare q (.property .init false) _ nofun]
  simp

mutual

theorem callsWhere_literalNode : ∀ v : Value, callsWhere q (literalNode v) = 0
  | .null => callsWhere_bare q .null [] nofun
  | .bool b => callsWhere_bare q (.boolean b) [] nofun
  | .number (.int n) => callsWhere_numberNode q _ _
  | .number (.real x) => callsWhere_numberNode q _ _
  | .string s => callsWhere_stringNode q s
  | .array items => by
    rw [literalNode, callsWhere_bare q .array _ nofun]
    exact callsWhereAll_literalItems items
  | .object fields => by
    rw [literalNode, callsWhere_bare q .object _ nofun]
    exact callsWhereAll_literalFields fields

theorem callsWhereAll_literalItems : ∀ vs : List Value, callsWhereAll q (literalItems vs) = 0
  | [] => rfl
  | v :: rest => by
    rw [literalItems, callsWhereAll_cons, callsWhere_literalNode v, callsWhereAll_literalItems rest]

theorem callsWhereAll_literalFields :
    ∀ fields : List (String × Value), callsWhereAll q (literalFields fields) = 0
  | [] => rfl
  | (k, v) :: rest => by
    rw [literalFields, callsWhereAll_cons, callsWhere_propertyNode, callsWhere_stringNode,
      callsWhere_literalNode v, callsWhereAll_literalFields rest]

end

/-- The wrapper of a handler calls it with the name of its parameter. -/
theorem callsWhere_wrapperNode (p : String) (handler : Tree) :
    callsWhere q (wrapperNode p handler) =
      (if q ⟨Span.none, handler, [referenceNode p]⟩ then 1 else 0) + callsWhere q handler := by
  have hp : callsWhere q (bare .parameters [bare (.binding p) []]) = 0 := by
    rw [callsWhere_bare q .parameters _ nofun, callsWhereAll_cons,
      callsWhere_bare q (.binding p) _ nofun]
    rfl
  have hr : callsWhere q (bare .returning [referenceNode p]) = 0 := by
    rw [callsWhere_bare q .returning _ nofun]
    simp
  have hc : callsWhere q (callNode handler [referenceNode p]) =
      (if q ⟨Span.none, handler, [referenceNode p]⟩ then 1 else 0) + callsWhere q handler := by
    rw [callsWhere_call q (c := ⟨Span.none, handler, [referenceNode p]⟩) rfl]
    simp
  have hs : callsWhere q (bare .expressionStatement [callNode handler [referenceNode p]]) =
      callsWhere q (callNode handler [referenceNode p]) := by
    rw [callsWhere_bare q .expressionStatement _ nofun]
    simp
  have hb : callsWhere q (bare .body
      [bare .expressionStatement [callNode handler [referenceNode p]],
        bare .returning [referenceNode p]]) =
      callsWhere q (callNode handler [referenceNode p]) := by
    rw [callsWhere_bare q .body _ nofun]
    simp [hs, hr]
  rw [wrapperNode, callsWhere_bare q (.arrow false) _ nofun, ← hc]
  simp [hp, hb]

/-! ### What a replacement takes over -/

/-- The body of a request stands in its second argument. -/
theorem bodyExpression?_mem_subtrees {c : Call} {spec : BodySpec} {t : Tree}
    (h : bodyExpression? c spec = .ok (some t)) : ∃ a ∈ c.arguments, t ∈ a.subtrees := by
  cases spec with
  | absent =>
    rw [bodyExpression?] at h
    cases h
  | stringified =>
    cases hb : (c.option? "body").bind stringified? with
    | none => simp [bodyExpression?, hb] at h
    | some u =>
      obtain rfl : u = t := by simpa [bodyExpression?, hb] using h
      obtain ⟨body, hbody, hu⟩ := Option.bind_eq_some_iff.1 hb
      obtain ⟨a, ha, hmem⟩ := Call.option?_mem_subtrees hbody
      exact ⟨a, List.mem_of_getElem? ha,
        Tree.mem_subtrees_trans hmem (stringified?_mem_subtrees hu)⟩
  | raw =>
    cases hb : c.option? "body" with
    | none => simp [bodyExpression?, hb] at h
    | some u =>
      obtain rfl : u = t := by simpa [bodyExpression?, hb] using h
      obtain ⟨a, ha, hmem⟩ := Call.option?_mem_subtrees hb
      exact ⟨a, List.mem_of_getElem? ha, hmem⟩

/-! ### Parameters -/

theorem callsWhere_keyNode (key : String) : callsWhere q (keyNode key) = 0 := by
  unfold keyNode
  split
  · exact callsWhere_bare q (.key key) [] nofun
  · exact callsWhere_stringNode q key

theorem callsWhere_paramNode (body : Tree) (p : String × Param) :
    callsWhere q (paramNode body p) = if carriesBody p then callsWhere q body else 0 := by
  obtain ⟨key, p⟩ := p
  cases p with
  | json v =>
    rw [paramNode, callsWhere_propertyNode, callsWhere_keyNode, callsWhere_literalNode]
    rfl
  | body =>
    rw [paramNode, callsWhere_propertyNode, callsWhere_keyNode, Nat.zero_add]
    rfl
  | spread =>
    rw [paramNode, callsWhere_bare q .spread _ nofun]
    simp [carriesBody]

/-- The parameters of a request have the calls of the body as often as it is carried. -/
theorem callsWhere_params (body : Tree) (params : List (String × Param)) :
    callsWhere q (bare .object (params.map (paramNode body))) =
      params.countP carriesBody * callsWhere q body := by
  rw [callsWhere_bare q .object _ nofun]
  induction params with
  | nil => simp
  | cons p rest ih =>
    rw [List.map_cons, callsWhereAll_cons, ih, callsWhere_paramNode, List.countP_cons]
    cases carriesBody p with
    | false => simp
    | true =>
      simp only [↓reduceIte]
      rw [Nat.add_mul, Nat.one_mul, Nat.add_comm]

/-- The call that reads a text as JSON. -/
def parseCall (inside : Tree) : Call :=
  ⟨Span.none, bare (.member "parse" false) [referenceNode "JSON"], [inside]⟩

theorem callsWhere_bodyNode (spec : BodySpec) (body : Option Tree) :
    callsWhere q (bodyNode spec body) =
      (if spec = .raw ∧ q (parseCall (body.getD (referenceNode bodyHole))) then 1 else 0) +
        (body.map (callsWhere q)).getD 0 := by
  have hinside : callsWhere q (body.getD (referenceNode bodyHole)) =
      (body.map (callsWhere q)).getD 0 := by
    cases body with
    | none => exact callsWhere_referenceNode q _
    | some b => rfl
  have hparse : callsWhere q (bare (.member "parse" false) [referenceNode "JSON"]) = 0 := by
    rw [callsWhere_bare q (.member "parse" false) _ nofun]
    simp
  rw [← hinside]
  cases spec with
  | absent => simp [bodyNode]
  | stringified => simp [bodyNode]
  | raw =>
    simp only [bodyNode, true_and]
    rw [callsWhere_call q (c := parseCall (body.getD (referenceNode bodyHole))) rfl]
    simp [parseCall, hparse]

/-! ### Platform names -/

theorem calleePath?_pathNode (t : Tree) (members : List String) :
    calleePath? (pathNode t members) =
      (calleePath? t).map fun first => members.foldl (fun o m => o ++ "." ++ m) first := by
  induction members generalizing t with
  | nil => simp [pathNode]
  | cons m rest ih =>
    have hcons : pathNode t (m :: rest) = pathNode (bare (.member m false) [t]) rest := rfl
    rw [hcons, ih, bare, calleePath?_member, Option.map_map]
    rfl

theorem callsWhere_pathNode (t : Tree) (members : List String) :
    callsWhere q (pathNode t members) = callsWhere q t := by
  induction members generalizing t with
  | nil => rfl
  | cons m rest ih =>
    have hcons : pathNode t (m :: rest) = pathNode (bare (.member m false) [t]) rest := rfl
    rw [hcons, ih, callsWhere_bare q (.member m false) _ nofun]
    simp

/-- Members joined to a name by points are the text of the name with the points between. -/
theorem foldl_members (a : List Char) (parts : List (List Char)) :
    (parts.map String.ofList).foldl (fun o m => o ++ "." ++ m) (String.ofList a) =
      String.ofList (['.'].intercalate (a :: parts)) := by
  induction parts generalizing a with
  | nil => simp
  | cons p rest ih =>
    have hjoin : String.ofList a ++ "." ++ String.ofList p = String.ofList (a ++ ['.'] ++ p) := by
      simp [String.ofList_append, String.append_assoc]
    rw [List.map_cons, List.foldl_cons, hjoin, ih]
    cases rest with
    | nil => simp [List.intercalate]
    | cons r rest => simp [List.intercalate]

/-- A dotted name is put together again from its parts. -/
theorem dottedPath?_eq_some {name first : String} {members : List String}
    (h : dottedPath? name = some (first, members)) :
    members.foldl (fun o m => o ++ "." ++ m) first = name := by
  unfold dottedPath? at h
  simp only at h
  split at h
  · simp at h
  · split at h
    · next head rest heq =>
      split at h
      · simp at h
      · obtain ⟨rfl, rfl⟩ := Prod.mk.inj (Option.some.inj h)
        obtain ⟨a, parts, hparts, rfl, rfl⟩ := List.map_eq_cons_iff.1 heq
        rw [foldl_members, ← hparts, List.intercalate_splitOn]
        exact String.ofList_toList
    · simp at h

/-- A name that is a dotted path becomes a call of that path. -/
theorem invoke_of_dotted {name : String} (hname : (dottedPath? name).isSome) (c : Call)
    (arguments : List Tree) (text : List Char) (holes : Holes) :
    ∃ callee, invoke name c arguments text holes =
        .ok (.node (.call false) c.span (callee :: arguments)) ∧
      calleePath? callee = some name ∧ ∀ q, callsWhere q callee = 0 := by
  obtain ⟨⟨first, members⟩, hpath⟩ := Option.isSome_iff_exists.1 hname
  refine ⟨pathNode (.node (.reference first) (anchorSpan c) []) members, ?_, ?_, fun q => ?_⟩
  · rw [invoke, hpath]
  · rw [calleePath?_pathNode, calleePath?_reference, Option.map_some, dottedPath?_eq_some hpath]
  · rw [callsWhere_pathNode,
      callsWhere_of_no_call q (Call.ofTree?_node_eq_none (k := .reference first) nofun)]
    rfl

/-! ### Replacements -/

variable {platform : PlatformCalls}

/-- A registration becomes a platform call with the name of the event and the wrapped handler. -/
theorem ofEvent_of_dotted (hd : (dottedPath? platform.eventRegistration).isSome) {c : Call}
    {i : Nat} {handler : Tree} (h : c.argument? i = some handler) (name : String) :
    ∃ callee p, ofEvent platform c i name =
        .ok (.node (.call false) c.span [callee, stringNode name, wrapperNode p handler]) ∧
      calleePath? callee = some platform.eventRegistration ∧ ∀ q, callsWhere q callee = 0 := by
  obtain ⟨callee, hinvoke, hcallee⟩ := invoke_of_dotted hd c
    [stringNode name, wrapperNode (eventParameter handler) handler]
    (quoteJson name.toList ++ ", ".toList ++ (wrapperText (eventParameter handler)).toList)
    ⟨some handler, none⟩
  refine ⟨callee, eventParameter handler, ?_, hcallee⟩
  simp only [ofEvent, h]
  exact hinvoke

/-- A request becomes a platform call with a path, a method and parameters. -/
theorem ofFetch_of_dotted (hd : (dottedPath? platform.apiInvocation).isSome) {c : Call}
    {spec : BodySpec} {body : Option Tree} (h : bodyExpression? c spec = .ok body)
    (url method : String) (m : ApiMapping) :
    ∃ callee r, r = m.transform.request ⟨url, method, body.map fun _ => .deferred⟩ ∧
      ofFetch platform c url spec method m =
        .ok (.node (.call false) c.span [callee, stringNode r.path, stringNode r.method,
          bare .object (r.params.map (paramNode (bodyNode spec body)))]) ∧
      calleePath? callee = some platform.apiInvocation ∧ ∀ q, callsWhere q callee = 0 := by
  generalize hr : m.transform.request ⟨url, method, body.map fun _ => .deferred⟩ = r
  obtain ⟨callee, hinvoke, hcallee⟩ := invoke_of_dotted hd c
    [stringNode r.path, stringNode r.method,
      bare .object (r.params.map (paramNode (bodyNode spec body)))]
    (quoteJson r.path.toList ++ ", ".toList ++ quoteJson r.method.toList ++ ", ".toList ++
      paramsText (bodyText spec) r.params) ⟨none, body⟩
  refine ⟨callee, r, rfl, ?_, hcallee⟩
  simp only [ofFetch, h, bind, Except.bind, hr]
  exact hinvoke

/-- The calls in the replacement of a registration: itself, the call of the handler and the calls in
the handler. -/
theorem callsWhere_ofEvent (hd : (dottedPath? platform.eventRegistration).isSome) {c : Call}
    {i : Nat} {handler : Tree} (h : c.argument? i = some handler) (name : String) :
    ∃ t c' p, ofEvent platform c i name = .ok t ∧ Call.ofTree? t = some c' ∧
      calleePath? c'.callee = some platform.eventRegistration ∧
      ∀ q, callsWhere q t = (if q c' then 1 else 0) +
        (if q ⟨Span.none, handler, [referenceNode p]⟩ then 1 else 0) + callsWhere q handler := by
  obtain ⟨callee, p, hok, hpath, hcallee⟩ := ofEvent_of_dotted hd h name
  refine ⟨_, ⟨c.span, callee, [stringNode name, wrapperNode p handler]⟩, p, hok, rfl, hpath,
    fun q => ?_⟩
  rw [callsWhere_call q (c := ⟨c.span, callee, [stringNode name, wrapperNode p handler]⟩) rfl]
  simp only [callsWhereAll_cons, callsWhereAll_nil, hcallee, callsWhere_stringNode,
    callsWhere_wrapperNode]
  omega

/-- The calls in the replacement of a request: itself and those that come with the body, as often as
the parameters carry it. -/
theorem callsWhere_ofFetch (hd : (dottedPath? platform.apiInvocation).isSome) {c : Call}
    {spec : BodySpec} {body : Option Tree} (h : bodyExpression? c spec = .ok body)
    (url method : String) (m : ApiMapping) :
    ∃ t c', ofFetch platform c url spec method m = .ok t ∧ Call.ofTree? t = some c' ∧
      calleePath? c'.callee = some platform.apiInvocation ∧
      ∀ q, callsWhere q t = (if q c' then 1 else 0) +
        (m.transform.request ⟨url, method, body.map fun _ => .deferred⟩).params.countP
          carriesBody * callsWhere q (bodyNode spec body) := by
  obtain ⟨callee, r, hr, hok, hpath, hcallee⟩ := ofFetch_of_dotted hd h url method m
  rw [← hr]
  refine ⟨_, ⟨c.span, callee, [stringNode r.path, stringNode r.method,
    bare .object (r.params.map (paramNode (bodyNode spec body)))]⟩, hok, rfl, hpath, fun q => ?_⟩
  rw [callsWhere_call q (c := ⟨c.span, callee, [stringNode r.path, stringNode r.method,
    bare .object (r.params.map (paramNode (bodyNode spec body)))]⟩) rfl]
  simp only [callsWhereAll_cons, callsWhereAll_nil, hcallee, callsWhere_stringNode,
    callsWhere_params]
  omega

end CallBridge.Replacement
