import CallBridge.Proofs.Registry.Routes
import CallBridge.Proofs.Replacement.Outline
import CallBridge.Proofs.Url.Origin

/-!
# Requests that are rewritten stay on allowed origins

Where a URL is looked at for its origin, for the origin being allowed, for its path and for the
segments of the path, the authority ends at the same place. Main statement: a request is rewritten
only if its URL is a path under the prefix of its mapping, or an allowed origin with such a path
behind it (`fetch_onAllowedOrigin`).
-/

namespace CallBridge.Replacement

open Collection Pattern Registry Url

variable {config : Config} {registry : Registry} {mode : Mode} {source : List Char} {c : Call}
  {f : FetchCall} {method : String} {m : ApiMapping}

/-- A plan for a request is about a literal URL that is allowed and finds its mapping. -/
theorem url_of_judge
    (h : judge (settingOf registry config mode source) c = .planned (.fetch f method m)) :
    c.literalArgument? 0 = some f.url ∧ isAllowed config f.url ∧
      registry.apiByRoute? method f.url = some m := by
  rcases (judge_eq_planned_iff _).1 h with ⟨_, _, -, -, hp⟩ | ⟨f', method', m', hf, -, hm, hp⟩
  · cases hp
  · obtain ⟨rfl, rfl, rfl⟩ := Plan.fetch.inj hp
    obtain ⟨path, url, -, -, hurl, hallowed, heq⟩ :=
      recognizeFetch_eq_some_iff.1 (recognizeFetch_of_classify hf)
    obtain rfl := CallMatch.fetch.inj heq
    have hkept : (requestOf c path url).url = url := by
      unfold requestOf
      cases c.options <;> rfl
    rw [hkept] at hm ⊢
    exact ⟨hurl, hallowed, hm⟩

/-- The head of the URL of a request that is rewritten is a path under the prefix of the mapping, or
an allowed origin with such a path behind it. No other origin is ever in front of it. -/
theorem fetch_onAllowedOrigin {start : Registry} (hstart : start = empty ∨ start = standard)
    (es : List Entry)
    (h : judge (settingOf (start.registerAll es) config mode source) c =
      .planned (.fetch f method m)) :
    c.literalArgument? 0 = some f.url ∧
      ((¬ (∃ origin rest, head f.url.toList = origin ++ rest ∧ IsOrigin origin ∧ BeginsPath rest) ∧
          IsUnder m.pathPrefix.toList (head f.url.toList)) ∨
        ∃ origin rest, head f.url.toList = origin ++ rest ∧ IsOrigin origin ∧ BeginsPath rest ∧
          OnAllowedOrigin config origin ∧ IsUnder m.pathPrefix.toList rest) ∧
      ∀ origin rest, head f.url.toList = origin ++ rest → IsOrigin origin → BeginsPath rest →
        OnAllowedOrigin config origin := by
  obtain ⟨hurl, hallowed, hroute⟩ := url_of_judge h
  have hevery := isAllowed_iff.1 hallowed
  obtain ⟨-, hne, hunder⟩ := (coherent_registerAll hstart es).isUnder_of_apiByRoute? hroute
  refine ⟨hurl, ?_, hevery⟩
  cases horigin : splitOrigin? (head f.url.toList) with
  | none => exact Or.inl ⟨splitOrigin?_eq_none_iff.1 horigin, isUnder_head horigin hunder⟩
  | some found =>
    obtain ⟨origin, rest⟩ := found
    obtain ⟨hhead, ho, hrest⟩ := splitOrigin?_eq_some_iff.1 horigin
    exact Or.inr ⟨origin, rest, hhead, ho, hrest, hevery origin rest hhead ho hrest,
      isUnder_behind_origin hne horigin hunder⟩

/-- A configuration that allows one origin. -/
def shopConfig : Config := { Config.standard with allowedOrigins := ["https://Shop.example/"] }

/-- A request to that origin, in other letters and without a scheme. -/
def shopCall : Call :=
  ⟨.none, .node (.reference "fetch") .none [],
    [.node (.string ⟨"//SHOP.example/api/records/7?limit=1", false⟩) .none []]⟩

theorem fetch_onAllowedOrigin_shop :
    (empty = empty ∨ empty = standard) ∧
      ∃ m, judge (settingOf (empty.registerAll [routeEntry "records" "GET" "/api/records"])
          shopConfig .production []) shopCall =
            .planned (.fetch ⟨"fetch", "//SHOP.example/api/records/7?limit=1", .static "GET", .absent⟩
              "GET" m) ∧
        OnAllowedOrigin shopConfig "//SHOP.example".toList := by
  have hclassify : (Matcher.ofConfig shopConfig).classify shopCall =
      .matched (.fetch ⟨"fetch", "//SHOP.example/api/records/7?limit=1", .static "GET", .absent⟩) := by
    decide +kernel
  have hfound : ((empty.registerAll [routeEntry "records" "GET" "/api/records"]).apiByRoute? "GET"
      "//SHOP.example/api/records/7?limit=1").isSome := by decide +kernel
  obtain ⟨m, hm⟩ := Option.isSome_iff_exists.1 hfound
  have hjudge := (judge_eq_planned_iff (settingOf
    (empty.registerAll [routeEntry "records" "GET" "/api/records"]) shopConfig .production [])).2
    (Or.inr ⟨_, _, _, hclassify, rfl, hm, rfl⟩)
  have hhead : head "//SHOP.example/api/records/7?limit=1".toList =
      "//SHOP.example".toList ++ "/api/records/7".toList := by decide +kernel
  have horigin : IsOrigin "//SHOP.example".toList := .relative (by decide)
  have hpath : BeginsPath "/api/records/7".toList := stops_cons.2 rfl
  obtain ⟨-, -, hevery⟩ := fetch_onAllowedOrigin (Or.inl rfl) _ hjudge
  exact ⟨Or.inl rfl, m, hjudge, hevery _ _ hhead horigin hpath⟩

end CallBridge.Replacement
