import CallBridge.Proofs.Replacement.Walk

/-!
# The walk keeps outlines

The names that are read inside a call (a selector query, `JSON.stringify`) are neither callees nor
platform calls. Then the walk keeps the outline of every tree (`output_keepsOutline`): a call is
judged after the walk over its parts as it was before (`judge_walkedCall`), and every plan is
carried out (`fate_of_judge`).
-/

namespace CallBridge.Replacement

open Pattern Script Source

/-- A platform whose names are dotted paths. -/
structure Dotted (platform : PlatformCalls) : Prop where
  event : (dottedPath? platform.eventRegistration).isSome
  api : (dottedPath? platform.apiInvocation).isSome

/-- Names that are neither callees nor platform calls. -/
structure Apart (config : Config) (names : List String) : Prop where
  event : ∀ name ∈ names, name ∉ config.eventCallees
  fetch : ∀ name ∈ names, name ∉ config.fetchCallees
  platformCall : ∀ p : Plan, p.platformCall config.platform ∉ names

/-- What a walk goes by under a configuration. -/
def settingOf (registry : Registry) (config : Config) (mode : Mode) (source : List Char) :
    Setting :=
  ⟨registry, .ofConfig config, config.platform, mode, source⟩

variable {registry : Registry} {config : Config} {mode : Mode} {source : List Char} {c : Call}

/-! ### Planned calls -/

/-- A plan for an event has a handler to wrap. -/
theorem handler_of_judge {e : EventCall} {m : EventMapping}
    (h : judge (settingOf registry config mode source) c = .planned (.event e m)) :
    ∃ handler, c.argument? e.handlerIndex = some handler := by
  rcases (judge_eq_planned_iff _).1 h with ⟨e', m', he, -, hp⟩ | ⟨_, _, _, -, -, -, hp⟩
  · obtain ⟨rfl, rfl⟩ := Plan.event.inj hp
    obtain ⟨_, _, _, handler, -, -, hhandler, hm⟩ :=
      recognizeEvent_eq_some_iff.1 (recognizeEvent_of_classify he)
    obtain rfl := CallMatch.event.inj hm
    exact ⟨handler, hhandler⟩
  · cases hp

/-- A plan for an event wraps the second argument and counts those behind it. -/
theorem registration_of_judge {e : EventCall} {m : EventMapping}
    (h : judge (settingOf registry config mode source) c = .planned (.event e m)) :
    e.handlerIndex = 1 ∧ e.discarded = c.arguments.length - 2 := by
  rcases (judge_eq_planned_iff _).1 h with ⟨e', m', he, -, hp⟩ | ⟨_, _, _, -, -, -, hp⟩
  · obtain ⟨rfl, rfl⟩ := Plan.event.inj hp
    obtain ⟨_, _, _, _, -, -, -, hm⟩ :=
      recognizeEvent_eq_some_iff.1 (recognizeEvent_of_classify he)
    obtain rfl := CallMatch.event.inj hm
    exact ⟨rfl, rfl⟩
  · cases hp

/-- A plan for a request knows its method and its body. -/
theorem request_of_judge {f : FetchCall} {method : String} {m : ApiMapping}
    (h : judge (settingOf registry config mode source) c = .planned (.fetch f method m)) :
    methodOf c = .static method ∧ f.body = bodyOf c := by
  rcases (judge_eq_planned_iff _).1 h with ⟨_, _, -, -, hp⟩ | ⟨f', method', m', hf, hmethod, -, hp⟩
  · cases hp
  · obtain ⟨rfl, rfl, rfl⟩ := Plan.fetch.inj hp
    obtain ⟨path, url, -, -, -, -, hm⟩ :=
      recognizeFetch_eq_some_iff.1 (recognizeFetch_of_classify hf)
    obtain rfl := CallMatch.fetch.inj hm
    revert hmethod
    unfold requestOf
    cases c.options with
    | opaqueValue =>
      intro hmethod
      cases hmethod
    | absent => exact fun hmethod => ⟨hmethod, rfl⟩
    | entries es => exact fun hmethod => ⟨hmethod, rfl⟩

/-- The callee of a call with a plan is a configured one, if it has a dotted name. -/
theorem mem_callees_of_judge {p : Plan} {path : String}
    (h : judge (settingOf registry config mode source) c = .planned p)
    (hp : calleePath? c.callee = some path) :
    path ∈ config.eventCallees ∨ path ∈ config.fetchCallees := by
  rcases (judge_eq_planned_iff _).1 h with ⟨e, m, he, -, -⟩ | ⟨f, method, m, hf, -, -, -⟩
  · exact mem_callees_of_classify he hp
  · exact mem_callees_of_classify hf hp

/-- The part of a body that is carried over. -/
def bodyCarried (t : Tree) : Tree := (stringified? t).getD t

/-- The body that the options of a call name is found in them. -/
theorem bodyExpression?_bodyOf_eq (c : Call) :
    bodyExpression? c (bodyOf c) = .ok ((c.option? "body").map bodyCarried) := by
  rw [bodyOf]
  cases hbody : c.option? "body" with
  | none => rfl
  | some t =>
    dsimp only [Option.map_some, bodyCarried]
    cases hs : stringified? t with
    | none => simp [bodyExpression?, hbody]
    | some u => simp [bodyExpression?, hbody, hs]

theorem bodyExpression?_bodyOf (c : Call) : ∃ body, bodyExpression? c (bodyOf c) = .ok body :=
  ⟨_, bodyExpression?_bodyOf_eq c⟩

/-- The body that is found in a call goes through a map with the call. -/
theorem bodyExpression?_eq {names : List String} {φ : Tree → Tree} (hφ : KeepsOutline names φ)
    (hs : "JSON.stringify" ∈ names) {c' : Call} (h : c.Follows φ c') (spec : BodySpec) :
    bodyExpression? c' spec = (bodyExpression? c spec).map fun body => body.map φ := by
  cases spec with
  | absent => rfl
  | stringified =>
    rw [bodyExpression?, bodyExpression?, hφ.option?_eq h]
    cases c.option? "body" with
    | none => rfl
    | some t =>
      simp only [Option.map_some, Option.bind_some]
      rw [hφ.stringified?_eq hs]
      cases stringified? t <;> rfl
  | raw =>
    rw [bodyExpression?, bodyExpression?, hφ.option?_eq h]
    cases c.option? "body" <;> rfl

/-! ### Replacements of calls with a plan -/

/-- With a dotted name, a replacement is a call of that name. -/
theorem callee_of_replacement {platform : PlatformCalls} {p : Plan} {new : Tree}
    (hd : (dottedPath? (p.platformCall platform)).isSome)
    (h : p.replacement platform c = .ok new) :
    ∃ c', Call.ofTree? new = some c' ∧
      calleePath? c'.callee = some (p.platformCall platform) := by
  cases p with
  | event e m =>
    rw [Plan.replacement] at h
    cases ha : c.argument? e.handlerIndex with
    | none => simp [ofEvent, ha] at h
    | some handler =>
      obtain ⟨t, c', -, hok, hcall, hpath, -⟩ := callsWhere_ofEvent hd ha m.platformName
      obtain rfl := Except.ok.inj (hok.symm.trans h)
      exact ⟨c', hcall, hpath⟩
  | fetch f method m =>
    rw [Plan.replacement] at h
    cases hb : bodyExpression? c f.body with
    | error problem => simp [ofFetch, hb, bind, Except.bind] at h
    | ok body =>
      obtain ⟨t, c', hok, hcall, hpath, -⟩ := callsWhere_ofFetch hd hb f.url method m
      obtain rfl := Except.ok.inj (hok.symm.trans h)
      exact ⟨c', hcall, hpath⟩

section Dotted

variable (hd : Dotted config.platform)

include hd

theorem Dotted.platformCall (p : Plan) : (dottedPath? (p.platformCall config.platform)).isSome := by
  cases p with
  | event e m => exact hd.event
  | fetch f method m => exact hd.api

/-- The walk changes nothing that is read under names that are no callees and no platform calls. -/
theorem output_keepsOutline {names : List String} (ha : Apart config names) :
    KeepsOutline names (output (settingOf registry config mode source)) := by
  intro k span cs
  rcases walk_cases (settingOf registry config mode source) k span cs with
    ⟨c, p, new, hc, hfate, hout⟩ | ⟨-, hout⟩
  · obtain ⟨hprepare, hnew⟩ := (fate_eq_replaced_iff _).1 hfate
    obtain ⟨-, hjudge⟩ := (prepare_eq_some_iff _).1 hprepare
    refine Or.inr ⟨⟨c, hc, ?_⟩, ?_⟩
    · intro name hname hpath
      rcases mem_callees_of_judge hjudge hpath with hmem | hmem
      · exact ha.event name hname hmem
      · exact ha.fetch name hname hmem
    · rw [hout]
      obtain ⟨c', hc', hpath⟩ := callee_of_replacement (hd.platformCall p) hnew
      refine ⟨c', hc', fun name hname h => ?_⟩
      obtain rfl := Option.some.inj (hpath.symm.trans h)
      exact ha.platformCall p hname
  · exact Or.inl ⟨span, hout⟩

/-- A call is judged after the walk over its parts as it was before. -/
theorem judge_walkedCall {names : List String} (ha : Apart config names)
    (hs : "JSON.stringify" ∈ names) (hq : ∀ q ∈ config.selectorQueries, q ∈ names) (c : Call) :
    judge (settingOf registry config mode source)
        (walkedCall (settingOf registry config mode source) c) =
      judge (settingOf registry config mode source) c := by
  have hclassify : (Matcher.ofConfig config).classify
      (walkedCall (settingOf registry config mode source) c) =
        (Matcher.ofConfig config).classify c :=
    (output_keepsOutline hd ha).classify_eq hs hq (walkedCall_follows _ c)
  unfold judge
  simp only [settingOf] at hclassify ⊢
  rw [hclassify]

/-- Every plan is carried out: what it takes over from the call survives the walk over its parts. -/
theorem fate_of_judge {names : List String} (ha : Apart config names)
    (hs : "JSON.stringify" ∈ names) {p : Plan}
    (h : judge (settingOf registry config .production source) c = .planned p) :
    ∃ new, fate (settingOf registry config .production source) c = .replaced p new := by
  have hkeeps : KeepsOutline names (output (settingOf registry config .production source)) :=
    output_keepsOutline hd ha
  have hfollows := walkedCall_follows (settingOf registry config .production source) c
  have hprepare : (prepare (settingOf registry config .production source) c).2 = some p :=
    (prepare_eq_some_iff _).2 ⟨rfl, h⟩
  suffices hnew : ∃ new, p.replacement config.platform
      (walkedCall (settingOf registry config .production source) c) = .ok new by
    obtain ⟨new, hnew⟩ := hnew
    exact ⟨new, (fate_eq_replaced_iff _).2 ⟨hprepare, hnew⟩⟩
  cases p with
  | event e m =>
    obtain ⟨handler, hhandler⟩ := handler_of_judge h
    have hwalked := hkeeps.argument?_eq hfollows e.handlerIndex
    rw [hhandler] at hwalked
    obtain ⟨t, -, -, hok, -⟩ := callsWhere_ofEvent hd.event hwalked m.platformName
    exact ⟨t, hok⟩
  | fetch f method m =>
    obtain ⟨-, hbody⟩ := request_of_judge h
    obtain ⟨body, hexpression⟩ :=
      bodyExpression?_bodyOf (walkedCall (settingOf registry config .production source) c)
    rw [hkeeps.bodyOf_eq hs hfollows, ← hbody] at hexpression
    obtain ⟨t, -, hok, -⟩ := callsWhere_ofFetch hd.api hexpression f.url method m
    exact ⟨t, hok⟩

end Dotted

end CallBridge.Replacement
