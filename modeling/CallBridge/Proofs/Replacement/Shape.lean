import CallBridge.Proofs.Replacement.Parameters

/-!
# The shape of replacements

What a registration or a request becomes does not depend on the characters of names, URLs, keys and
values: they end up in string literals and keys, and the handler or body that is taken over stands
where its hole stood. Main statement: with the platform's own names, the text of a replacement is
read as the call that is built, for every registration and every request of the catalogue
(`replacement_keepsShape`).
-/

namespace CallBridge.Replacement

open Json Number Pattern Script CallBridge.Text

/-! ### The parameter of a handler -/

/-- A word that the parameter of a wrapper may be: no keyword and no hole. -/
structure IsParameter (p : String) : Prop where
  name : IsName p
  keyword : isKeyword p = false
  handler : p ≠ handlerHole
  body : p ≠ bodyHole

theorem isKeyword_eq_false {w : String} (h : w.toList.head? = some '_') : isKeyword w = false := by
  have hall : ∀ k ∈ reservedWords ++ contextualWords, k.toList.head? ≠ some '_' := by decide
  by_contra hne
  have hkeyword : isKeyword w = true := by simpa using hne
  have hmem : w ∈ reservedWords ++ contextualWords := by
    simpa [isKeyword, isReserved, List.mem_append] using hkeyword
  exact hall w hmem h

theorem isParameter_fallbackName (n : Nat) : IsParameter (fallbackName n) := by
  have hdigits : ∃ ds, (fallbackName n).toList = "__ktnEvent".toList ++ ds ∧
      ∀ d ∈ ds, isIdentifierPart d := by
    unfold fallbackName
    split
    · exact ⟨[], rfl, by simp⟩
    · refine ⟨(toString n).toList, String.toList_append, fun d hd => ?_⟩
      have hd' : d ∈ Nat.toDigits 10 n := by simpa using hd
      exact isIdentifierPart_of_isDigit (isDigit_of_mem_digitsOf hd')
  obtain ⟨ds, htext, hds⟩ := hdigits
  have hne : ∀ w : String, w.toList[5]? ≠ some 'E' → fallbackName n ≠ w := by
    rintro w hw rfl
    rw [htext] at hw
    exact hw rfl
  refine ⟨⟨'_', "_ktnEvent".toList ++ ds, htext, by decide, fun d hd => ?_⟩,
    isKeyword_eq_false (by rw [htext]; rfl), hne _ (by decide), hne _ (by decide)⟩
  have hstem : ∀ d ∈ "_ktnEvent".toList, isIdentifierPart d := by decide
  exact (List.mem_append.1 hd).elim (hstem d) (hds d)

theorem isParameter_eventParameter (handler : Tree) : IsParameter (eventParameter handler) := by
  have hfresh : ∀ taken, ∃ n, freshName taken = fallbackName n := by
    intro taken
    unfold freshName
    simp only
    cases hfind : ((List.range (taken.length + 1)).map fallbackName).find?
        fun n => !taken.contains n with
    | none => exact ⟨taken.length, rfl⟩
    | some w =>
      obtain ⟨n, -, hn⟩ := List.mem_map.1 (List.mem_of_find?_eq_some hfind)
      exact ⟨n, hn.symm⟩
  unfold eventParameter
  simp only
  split
  · obtain ⟨n, hn⟩ := hfresh (references handler)
    rw [hn]
    exact isParameter_fallbackName n
  · exact ⟨⟨'e', "vent".toList, rfl, by decide, by decide⟩, by decide, by decide, by decide⟩

/-! ### The wrapper of a handler -/

variable {p name : String}

/-- The text of a wrapper is read as its node, a hole in place of the handler. -/
theorem phrase_wrapperText (hp : IsParameter p) :
    Phrase (wrapperText p).toList (wrapperNode p (referenceNode handlerHole)) := by
  have hhole : IsName handlerHole := ⟨'_', "_ktn_handler".toList, rfl, by decide, by decide⟩
  have hreturn : IsName "return" := ⟨'r', "eturn".toList, rfl, by decide, by decide⟩
  have hparam : IsExpression [.word p false] (referenceNode p) := .leaf (.name hp.keyword)
  have hcall : IsExpression [.word handlerHole false, .mark "(", .word p false, .mark ")"]
      (callNode (referenceNode handlerHole) [referenceNode p]) :=
    .call (by decide) [] (.cons hparam .nil)
  have harrow := IsExpression.arrow hp.keyword
    (.cons (.expression (by decide) hcall) (.cons (.returning hparam) .nil))
  refine ⟨_, ?_, harrow⟩
  -- The text from its end on: a piece in front of what has been taken already.
  have hclose : Taken [';', ' ', '\x7d'] [.mark ";", .mark "\x7d"] :=
    .mark (.space fun rest _ => takes_closeBrace rest) (by decide)
  have hresult := ((hclose.word hp.name (by decide)).space.word hreturn (by decide)).space
  have hend := (hresult.mark (c := ';') (by decide)).mark (c := ')') (by decide)
  have hinside := (hend.word hp.name (by decide)).mark (c := '(') (by decide)
  have hbody := (hinside.word hhole (by decide)).space.openBrace
  have hparams := (hbody.space.arrow.space.mark (c := ')') (by decide)).word hp.name (by decide)
  have htext : (wrapperText p).toList = '(' :: (p.toList ++ ')' :: ' ' :: '=' :: '>' :: ' ' ::
      '\x7b' :: ' ' :: (handlerHole.toList ++ '(' :: (p.toList ++ ')' :: ';' :: ' ' ::
        ("return".toList ++ ' ' :: (p.toList ++ [';', ' ', '\x7d']))))) := by
    simp [wrapperText, String.toList_append]
  rw [htext]
  exact hparams.mark (by decide)

/-- Filling the hole of a wrapper puts the handler in its place. -/
theorem fill_wrapperNode (hp : IsParameter p) (handler : Tree) :
    fill ⟨some handler, none⟩ (wrapperNode p (referenceNode handlerHole)) = wrapperNode p handler := by
  have hparam : fill ⟨some handler, none⟩ (referenceNode p) = referenceNode p :=
    fill_referenceNode_eq (get?_eq_none hp.handler hp.body)
  have hhandler : fill ⟨some handler, none⟩ (referenceNode handlerHole) = handler :=
    fill_reference handlerHole _ _
  have hbinding : fill ⟨some handler, none⟩ (bare .parameters [bare (.binding p) []]) =
      bare .parameters [bare (.binding p) []] := by
    rw [fill_bareNode (by simp), List.map_singleton, fill_bareNode (by simp), List.map_nil]
  have hcall : fill ⟨some handler, none⟩ (bare .expressionStatement
      [callNode (referenceNode handlerHole) [referenceNode p]]) =
        bare .expressionStatement [callNode handler [referenceNode p]] := by
    rw [fill_bareNode (by simp), List.map_singleton, fill_callNode, hhandler, List.map_singleton,
      hparam]
  have hresult : fill ⟨some handler, none⟩ (bare .returning [referenceNode p]) =
      bare .returning [referenceNode p] := by
    rw [fill_bareNode (by simp), List.map_singleton, hparam]
  rw [wrapperNode, fill_bareNode (by simp), List.map_cons, hbinding, List.map_singleton,
    fill_bareNode (by simp), List.map_cons, hcall, List.map_singleton, hresult, wrapperNode]

/-- A wrapper calls the handler once. -/
theorem occurrences_wrapperNode (hp : IsParameter p) :
    occurrences handlerHole (wrapperNode p (referenceNode handlerHole)) = 1 := by
  have hparam : occurrences handlerHole (referenceNode p) = 0 := by
    rw [occurrences_referenceNode, if_neg hp.handler]
  have hhandler : occurrences handlerHole (referenceNode handlerHole) = 1 := by
    rw [occurrences_referenceNode, if_pos rfl]
  have hbinding : occurrences handlerHole (bare .parameters [bare (.binding p) []]) = 0 := by
    rw [occurrences_bareNode (by simp), List.map_singleton, occurrences_bareNode (by simp)]
    rfl
  have hcall : occurrences handlerHole (bare .expressionStatement
      [callNode (referenceNode handlerHole) [referenceNode p]]) = 1 := by
    rw [occurrences_bareNode (by simp), List.map_singleton, occurrences_callNode, hhandler,
      List.map_singleton, hparam]
    rfl
  have hresult : occurrences handlerHole (bare .returning [referenceNode p]) = 0 := by
    rw [occurrences_bareNode (by simp), List.map_singleton, hparam]
    rfl
  rw [wrapperNode, occurrences_bareNode (by simp), List.map_cons, hbinding, List.map_singleton,
    occurrences_bareNode (by simp), List.map_cons, hcall, List.map_singleton, hresult]
  rfl

/-! ### Whole replacements -/

/-- The text of a registration with a hole in place of its handler. -/
def registrationText (platform : PlatformCalls) (eventName p : String) : List Char :=
  callText platform.eventRegistration
    (quoteJson eventName.toList ++ ", ".toList ++ (wrapperText p).toList)

/-- The text of a request with a hole in place of its body. -/
def requestText (platform : PlatformCalls) (spec : BodySpec) (r : PlatformRequest) : List Char :=
  callText platform.apiInvocation
    (quoteJson r.path.toList ++ ", ".toList ++ quoteJson r.method.toList ++ ", ".toList ++
      paramsText (bodyText spec) r.params)

variable {platform : PlatformCalls} {first : String} {members : List String}

/-- What the text of a call says is what the call that is built says. -/
theorem occurrences_of_bare {u : Tree} {ts : List Tree} (hname : name ≠ first)
    (h : u.bare = callNode (pathNode (referenceNode first) members) ts) :
    occurrences name u = (ts.map (occurrences name)).sum := by
  rw [← occurrences_bare, h, occurrences_callNode, occurrences_pathNode, occurrences_referenceNode,
    if_neg hname.symm, Nat.zero_add]

/-- The text of a registration is read as the registration that is built. -/
theorem registration_of_text (hpath : dottedPath? platform.eventRegistration = some (first, members))
    {c : Call} {i : Nat} {handler : Tree} (hhandler : c.argument? i = some handler)
    (eventName : String) :
    ∃ u, parseExpression (registrationText platform eventName (eventParameter handler)) = .ok u ∧
      occurrences handlerHole u = 1 ∧
      ofEvent platform c i eventName = .ok (anchor c (fill ⟨some handler, none⟩ u)) ∧
      anchor c (fill ⟨some handler, none⟩ u) = platformNode first members c
        [stringNode eventName, wrapperNode (eventParameter handler) handler] := by
  have hp := isParameter_eventParameter handler
  have htext : registrationText platform eventName (eventParameter handler) =
      callText platform.eventRegistration ([',', ' '].intercalate
        [quoteJson eventName.toList, (wrapperText (eventParameter handler)).toList]) := by
    simp [registrationText, List.intercalate]
  obtain ⟨u, hu, hbare, hanchor⟩ := parseExpression_callText hpath
    (.cons (phrase_stringNode eventName) (.cons (phrase_wrapperText hp) .nil)) c ⟨some handler, none⟩
  rw [List.map_cons, List.map_singleton, fill_stringNode, fill_wrapperNode hp] at hanchor
  have hname : handlerHole ≠ first := (isPath_of_dottedPath? hpath).handler.symm
  refine ⟨u, htext ▸ hu, ?_, ?_, hanchor⟩
  · rw [occurrences_of_bare hname hbare, List.map_cons, List.map_singleton, occurrences_stringNode,
      occurrences_wrapperNode hp]
    rfl
  · simp only [ofEvent, hhandler, invoke_eq hpath, hanchor]

/-- A request of the catalogue, its body known to be there or not. -/
def deferredRequest (m : ApiMapping) (url method : String) (body : Option Tree) : PlatformRequest :=
  m.transform.request ⟨url, method, body.map fun _ => .deferred⟩

/-- The method and the path of a request are those of its call and its mapping, and one parameter
carries the body if there is one. -/
theorem deferredRequest_spec {m : ApiMapping} (hm : m ∈ ApiCatalogue.all) (url method : String)
    (body : Option Tree) :
    (deferredRequest m url method body).path = m.platformPath ∧
      (deferredRequest m url method body).method = method.toUpper ∧
      (∀ e ∈ (deferredRequest m url method body).params, ∀ v, e.2 = .json v →
        IsQueryValue queryBound v) ∧
      (deferredRequest m url method body).params.countP carriesBody =
        if body.isSome then 1 else 0 := by
  have hdeferred : ∀ v, body.map (fun _ => RequestBody.deferred) ≠ some (.json v) := by
    cases body <;> exact nofun
  have hsends := ApiCatalogue.sends_of_mem_all hm ⟨url, method, body.map fun _ => .deferred⟩ hdeferred
  have honce := ApiCatalogue.carriesOnce_of_mem_all hm
  refine ⟨hsends.path, hsends.method, hsends.values, ?_⟩
  cases body with
  | none => exact honce.absent url method
  | some b => exact honce.deferred url method

/-- The text of a request is read as the request that is built. -/
theorem request_of_text (hpath : dottedPath? platform.apiInvocation = some (first, members))
    {c : Call} {spec : BodySpec} {body : Option Tree} (hbody : bodyExpression? c spec = .ok body)
    {m : ApiMapping} (hm : m ∈ ApiCatalogue.all) (url method : String) :
    ∃ u, parseExpression (requestText platform spec (deferredRequest m url method body)) = .ok u ∧
      occurrences bodyHole u = (if body.isSome then 1 else 0) ∧
      ofFetch platform c url spec method m = .ok (anchor c (fill ⟨none, body⟩ u)) ∧
      anchor c (fill ⟨none, body⟩ u) = platformNode first members c
        [stringNode (deferredRequest m url method body).path,
          stringNode (deferredRequest m url method body).method,
          bare .object ((deferredRequest m url method body).params.map
            (paramNode (bodyNode spec body)))] := by
  obtain ⟨-, -, hvalues, hcarried⟩ := deferredRequest_spec hm url method body
  obtain ⟨r, hr⟩ : ∃ r, deferredRequest m url method body = r := ⟨_, rfl⟩
  rw [hr] at hvalues hcarried ⊢
  have htext : requestText platform spec r = callText platform.apiInvocation ([',', ' '].intercalate
      [quoteJson r.path.toList, quoteJson r.method.toList, paramsText (bodyText spec) r.params]) := by
    simp [requestText, List.intercalate]
  obtain ⟨u, hu, hbare, hanchor⟩ := parseExpression_callText hpath
    (.cons (phrase_stringNode r.path) (.cons (phrase_stringNode r.method)
      (.cons (phrase_params spec hvalues) .nil))) c ⟨none, body⟩
  rw [List.map_cons, List.map_cons, List.map_singleton, fill_stringNode, fill_stringNode,
    fill_params spec body hvalues] at hanchor
  have hname : bodyHole ≠ first := (isPath_of_dottedPath? hpath).body.symm
  refine ⟨u, htext ▸ hu, ?_, ?_, hanchor⟩
  · rw [occurrences_of_bare hname hbare, List.map_cons, List.map_cons, List.map_singleton,
      occurrences_stringNode, occurrences_stringNode, occurrences_params spec hvalues, hcarried]
    simp
  · have hrequest : m.transform.request ⟨url, method, body.map fun _ => .deferred⟩ = r := hr
    simp only [ofFetch, hbody, bind, Except.bind, hrequest, invoke_eq hpath, hanchor]

/-! ### With the platform's own names -/

/-- What a parameter is as an item of an object literal: a property with exactly its key, and with
its value or the body for a value, or a spread of the body. -/
inductive IsItem (body : Tree) : String × Param → Tree → Prop where
  | json {key : String} {v : Value} {k t : Tree} : k = bare (.key key) [] ∨ k = stringNode key →
      t = literalNode v → (IsQueryValue (Nat.pow 2 53) v → IsLiteral v t) →
      IsItem body (key, .json v) (propertyNode k t)
  | body {key : String} {k : Tree} : k = bare (.key key) [] ∨ k = stringNode key →
      IsItem body (key, .body) (propertyNode k body)
  | spread {key : String} : IsItem body (key, .spread) (bare .spread [body])

theorem isItem_paramNode (body : Tree) (e : String × Param) : IsItem body e (paramNode body e) := by
  have hkey : ∀ key, keyNode key = bare (.key key) [] ∨ keyNode key = stringNode key := by
    intro key
    unfold keyNode
    split
    · exact Or.inl rfl
    · exact Or.inr rfl
  obtain ⟨key, p⟩ := e
  cases p with
  | json v => exact .json (hkey key) rfl isLiteral_literalNode
  | body => exact .body (hkey key)
  | spread => exact .spread

/-- With the platform's own names, the text of every replacement is read as a call of the platform
with literals, whatever the characters of names, URLs, keys and values are. The handler or the body
that is taken over stands where its hole stood, once, and is left as it is. -/
theorem replacement_keepsShape (config : Config) (c : Call) :
    (∀ e, (Matcher.ofConfig config).classify c = .matched (.event e) → ∀ eventName,
      ∃ handler p u, c.argument? e.handlerIndex = some handler ∧ p = eventParameter handler ∧
        parseExpression (registrationText .standard eventName p) = .ok u ∧
        occurrences handlerHole u = 1 ∧
        ofEvent .standard c e.handlerIndex eventName =
          .ok (anchor c (fill ⟨some handler, none⟩ u)) ∧
        anchor c (fill ⟨some handler, none⟩ u) = platformNode "kintone" ["events", "on"] c
          [stringNode eventName,
            bare (.arrow false)
              [bare .parameters [bare (.binding p) []],
                bare .body
                  [bare .expressionStatement [callNode handler [referenceNode p]],
                    bare .returning [referenceNode p]]]]) ∧
    (∀ f, (Matcher.ofConfig config).classify c = .matched (.fetch f) →
      ∀ url method, ∀ m ∈ ApiCatalogue.all,
        ∃ body r items u, bodyExpression? c f.body = .ok body ∧
          r = m.transform.request ⟨url, method, body.map fun _ => .deferred⟩ ∧
          r.path = m.platformPath ∧ r.method = method.toUpper ∧
          parseExpression (requestText .standard f.body r) = .ok u ∧
          occurrences bodyHole u = (if body.isSome then 1 else 0) ∧
          r.params.countP carriesBody = (if body.isSome then 1 else 0) ∧
          List.Forall₂ (IsItem (bodyNode f.body body)) r.params items ∧
          ofFetch .standard c url f.body method m = .ok (anchor c (fill ⟨none, body⟩ u)) ∧
          anchor c (fill ⟨none, body⟩ u) = platformNode "kintone" ["api"] c
            [stringNode r.path, stringNode r.method, bare .object items]) := by
  constructor
  · intro e he eventName
    obtain ⟨_, _, _, handler, -, -, hhandler, hmatch⟩ :=
      recognizeEvent_eq_some_iff.1 (recognizeEvent_of_classify he)
    obtain rfl := CallMatch.event.inj hmatch
    have hpath : dottedPath? PlatformCalls.standard.eventRegistration =
        some ("kintone", ["events", "on"]) := by decide
    obtain ⟨u, hu, honce, hok, hnode⟩ := registration_of_text hpath hhandler eventName
    exact ⟨handler, _, u, hhandler, rfl, hu, honce, hok, hnode⟩
  · intro f hf url method m hm
    obtain ⟨path, url', -, -, -, -, hmatch⟩ :=
      recognizeFetch_eq_some_iff.1 (recognizeFetch_of_classify hf)
    obtain rfl := CallMatch.fetch.inj hmatch
    have hbody : ∃ body, bodyExpression? c (requestOf c path url').body = .ok body := by
      unfold requestOf
      cases c.options with
      | opaqueValue => exact ⟨none, rfl⟩
      | absent => exact bodyExpression?_bodyOf c
      | entries es => exact bodyExpression?_bodyOf c
    obtain ⟨body, hbody⟩ := hbody
    have hpath : dottedPath? PlatformCalls.standard.apiInvocation = some ("kintone", ["api"]) := by
      decide
    obtain ⟨hpath', hmethod, -, hcarried⟩ := deferredRequest_spec hm url method body
    obtain ⟨u, hu, honce, hok, hnode⟩ := request_of_text hpath hbody hm url method
    have hitems : List.Forall₂ (IsItem (bodyNode (requestOf c path url').body body))
        (deferredRequest m url method body).params
        ((deferredRequest m url method body).params.map
          (paramNode (bodyNode (requestOf c path url').body body))) := by
      rw [List.forall₂_map_right_iff]
      exact List.forall₂_same.2 fun e _ => isItem_paramNode _ e
    exact ⟨body, _, _, u, hbody, rfl, hpath', hmethod, hu, honce, hcarried, hitems, hok, hnode⟩

/-- A registration of a handler that has the name of its own hole. -/
def holeRegistration : Call :=
  ⟨.none, .node (.member "addEventListener" false) .none [.node (.reference "document") .none []],
    [.node (.string ⟨"load", false⟩) .none [], .node (.reference handlerHole) .none []]⟩

/-- A request of which the body has the name of its own hole, as has a key of its URL. -/
def holeRequest : Call :=
  ⟨.none, .node (.reference "fetch") .none [],
    [.node (.string ⟨"/api/record?__ktn_body=%22]), -1", false⟩) .none [],
      .node .object .none
        [.node (.property .init false) .none
            [.node (.key "method") .none [], .node (.string ⟨"POST", false⟩) .none []],
          .node (.property .init false) .none
            [.node (.key "body") .none [], .node (.call false) .none
              [.node (.member "stringify" false) .none [.node (.reference "JSON") .none []],
                .node (.reference bodyHole) .none []]]]]⟩

theorem replacement_keepsShape_hole :
    ((Matcher.ofConfig .standard).classify holeRegistration =
        .matched (.event ⟨"document.addEventListener", "load", none, 1, 0⟩) ∧
      ∃ u, parseExpression (registrationText .standard "\"); __ktn_handler(\"" "event") = .ok u ∧
        occurrences handlerHole u = 1) ∧
    ((Matcher.ofConfig .standard).classify holeRequest = .matched (.fetch
        ⟨"fetch", "/api/record?__ktn_body=%22]), -1", .static "POST", .stringified⟩) ∧
      ∃ m ∈ ApiCatalogue.all, ∃ items, items.length = 2 ∧
        ofFetch .standard holeRequest "/api/record?__ktn_body=%22]), -1" .stringified "POST" m =
          .ok (platformNode "kintone" ["api"] holeRequest
            [stringNode m.platformPath, stringNode "POST", bare .object items])) := by
  have hevent : (Matcher.ofConfig .standard).classify holeRegistration =
      .matched (.event ⟨"document.addEventListener", "load", none, 1, 0⟩) := by decide +kernel
  have hfetch : (Matcher.ofConfig .standard).classify holeRequest = .matched (.fetch
      ⟨"fetch", "/api/record?__ktn_body=%22]), -1", .static "POST", .stringified⟩) := by
    decide +kernel
  obtain ⟨m, hm, hm'⟩ : ∃ m ∈ ApiCatalogue.all, m = ApiCatalogue.all[2] :=
    ⟨_, List.getElem_mem _, rfl⟩
  obtain ⟨handler, p, u, hhandler, rfl, hu, honce, -, -⟩ :=
    (replacement_keepsShape .standard holeRegistration).1 _ hevent "\"); __ktn_handler(\""
  obtain ⟨body, r, items, v, hbody, rfl, hpath, hmethod, -, -, -, hitems, hok, hnode⟩ :=
    (replacement_keepsShape .standard holeRequest).2 _ hfetch "/api/record?__ktn_body=%22]), -1"
      "POST" m hm
  obtain rfl : referenceNode handlerHole = handler := Option.some.inj hhandler
  obtain rfl : some (referenceNode bodyHole) = body := Except.ok.inj hbody
  have hlength : items.length = 2 := by
    rw [← hitems.length_eq, hm']
    decide +kernel
  have hupper : "POST".toUpper = "POST" := by decide +kernel
  rw [hpath, hmethod, hupper] at hnode
  exact ⟨⟨hevent, u, hu, honce⟩, hfetch, m, hm, items, hlength, hok.trans (congrArg _ hnode)⟩

end CallBridge.Replacement
