import CallBridge.Proofs.Registry.Routes
import CallBridge.Proofs.Registry.Triggers
import Mathlib.Data.List.Nodup

/-!
# The longest prefix

A path is looked up as it is, then cut at its last slash, and so on until nothing is left. What is
looked up on the way are the beginnings that the path is under, the longest first
(`mem_segmentPrefixes_iff`, `segmentPrefixes_decreasing`). Main statement: looking up a URL finds a
mapping exactly when its route is under the prefix of one, and then the first registered of those
with the longest such prefix, among the mappings of a method (of which there is only one) or among
all (`lookups_find_longest`).
-/

namespace CallBridge.Registry

variable {r start : Registry} {m : ApiMapping} {p q rest path : List Char}

/-! ### Cutting at the last slash -/

theorem cuts_eq_nil (h : '/' ∉ path) : cuts path = [] :=
  List.eq_nil_iff_forall_not_mem.2 fun _ hp => by
    obtain ⟨rest, rfl⟩ := mem_cuts.1 hp
    exact h (by simp)

theorem cuts_append_slash (h : '/' ∉ rest) : cuts (p ++ '/' :: rest) = cuts p ++ [p] := by
  induction p with
  | nil => simp [cuts, cuts_eq_nil h]
  | cons c p ih =>
    rw [List.cons_append, cuts, ih, cuts]
    split <;> simp

/-- A path is cut at its last slash, and what is in front of it is looked up like a path. -/
theorem segmentPrefixes_append_slash (h : '/' ∉ rest) :
    segmentPrefixes (p ++ '/' :: rest) = (p ++ '/' :: rest) :: segmentPrefixes p := by
  rw [segmentPrefixes, cuts_append_slash h, List.reverse_append, List.reverse_singleton,
    List.filter_cons_of_pos (by simp)]
  rfl

/-- Without a slash, there is nothing to look up but the path. -/
theorem segmentPrefixes_of_no_slash (h : '/' ∉ path) :
    segmentPrefixes path = if path.isEmpty then [] else [path] := by
  rw [segmentPrefixes, cuts_eq_nil h, List.reverse_nil, List.filter_cons]
  cases path <;> rfl

theorem exists_last_slash (h : '/' ∈ path) : ∃ p rest, path = p ++ '/' :: rest ∧ '/' ∉ rest := by
  obtain ⟨back, front, hsplit, hback⟩ := List.eq_append_cons_of_mem (List.mem_reverse.2 h)
  refine ⟨front.reverse, back.reverse, ?_, by simpa using hback⟩
  simpa using congrArg List.reverse hsplit

/-- Each cut leaves less than there was, so the walk ends. -/
theorem segmentPrefixes_decreasing (path : List Char) :
    (segmentPrefixes path).Pairwise fun a b => b.length < a.length := by
  induction hn : path.length using Nat.strong_induction_on generalizing path with
  | _ n ih =>
    by_cases hslash : '/' ∈ path
    · obtain ⟨p, rest, rfl, hrest⟩ := exists_last_slash hslash
      have hlt {q : List Char} (hq : IsUnder q p) : q.length < (p ++ '/' :: rest).length := by
        rcases hq with rfl | ⟨more, rfl⟩ <;> simp
      rw [segmentPrefixes_append_slash hrest, List.pairwise_cons]
      refine ⟨fun q hq => hlt (isUnder_of_mem_segmentPrefixes hq).2, ?_⟩
      exact ih p.length (hn ▸ hlt (Or.inl rfl)) p rfl
    · rw [segmentPrefixes_of_no_slash hslash]
      split
      · exact List.Pairwise.nil
      · exact List.pairwise_singleton ..

/-- No beginning that a path is under is skipped, and none is looked up that cuts a segment. -/
theorem mem_segmentPrefixes_iff : q ∈ segmentPrefixes path ↔ q ≠ [] ∧ IsUnder q path := by
  refine ⟨isUnder_of_mem_segmentPrefixes, fun ⟨hne, hunder⟩ => ?_⟩
  refine List.mem_filter.2 ⟨?_, by simpa using hne⟩
  rcases hunder with rfl | hcut
  · exact List.mem_cons_self ..
  · exact List.mem_cons_of_mem _ (List.mem_reverse.2 (mem_cuts.2 hcut))

/-! ### The first of the longest -/

/-- A mapping whose prefix a path is under, with no longer one among the mappings and no earlier one
of the same prefix. -/
structure IsFirstLongest (apis : List ApiMapping) (path : List Char) (m : ApiMapping) : Prop where
  under : IsUnder m.pathPrefix.toList path
  longest : ∀ other ∈ apis, IsUnder other.pathPrefix.toList path →
    other.pathPrefix.length ≤ m.pathPrefix.length
  first : (apis.find? fun found => found.pathPrefix = m.pathPrefix) = some m

variable {apis : List ApiMapping} {url : String} {find : String → Option ApiMapping}

/-- Looking mappings up under the beginnings of a path by a scan for the prefix ends at the first of
those with the longest prefix. -/
theorem apiUnder?_eq_some_iff
    (hfind : ∀ p, find p = apis.find? fun found => found.pathPrefix = p)
    (hne : ∀ m ∈ apis, m.pathPrefix ≠ "") :
    apiUnder? url find = some m ↔ IsFirstLongest apis (routePath url) m := by
  have hcarries {p : String} {m : ApiMapping} (h : find p = some m) :
      m ∈ apis ∧ m.pathPrefix = p := by
    rw [hfind] at h
    exact ⟨List.mem_of_find?_eq_some h, by simpa using List.find?_some h⟩
  have hlooked {m : ApiMapping} (hm : m ∈ apis) (h : IsUnder m.pathPrefix.toList (routePath url)) :
      m.pathPrefix.toList ∈ segmentPrefixes (routePath url) :=
    mem_segmentPrefixes_iff.2 ⟨fun hnil => hne m hm (String.toList_eq_nil_iff.1 hnil), h⟩
  have hsorted := segmentPrefixes_decreasing (routePath url)
  rw [apiUnder?, List.findSome?_eq_some_iff]
  constructor
  · rintro ⟨before, p, after, hsplit, hp, hbefore⟩
    obtain ⟨hm, hmp⟩ := hcarries hp
    have hunder := (mem_segmentPrefixes_iff.1 (hsplit ▸ List.mem_append_right before
      (List.mem_cons_self ..) : p ∈ segmentPrefixes (routePath url))).2
    rw [hsplit, List.pairwise_append, List.pairwise_cons] at hsorted
    refine ⟨by rwa [hmp, String.toList_ofList], fun other hother hunder' => ?_, ?_⟩
    · have hmem := hlooked hother hunder'
      rw [hsplit, List.mem_append, List.mem_cons] at hmem
      rw [← String.length_toList, ← String.length_toList, hmp, String.toList_ofList]
      rcases hmem with hmem | heq | hmem
      · -- a mapping with a longer prefix would have been found before
        have hnone := hbefore _ hmem
        rw [String.ofList_toList, hfind, List.find?_eq_none] at hnone
        exact absurd (decide_eq_true rfl) (hnone other hother)
      · exact (congrArg List.length heq).le
      · exact (hsorted.2.1.1 _ hmem).le
    · rw [hmp, ← hfind, hp]
  · intro h
    have hm : m ∈ apis := List.mem_of_find?_eq_some h.first
    obtain ⟨before, after, hsplit⟩ := List.append_of_mem (hlooked hm h.under)
    refine ⟨before, _, after, hsplit, ?_, fun p hp => ?_⟩
    · rw [String.ofList_toList, hfind, h.first]
    rw [hsplit, List.pairwise_append] at hsorted
    have hlonger := hsorted.2.2 p hp _ (List.mem_cons_self ..)
    have hunder := (mem_segmentPrefixes_iff.1 (hsplit ▸ List.mem_append_left _ hp :
      p ∈ segmentPrefixes (routePath url))).2
    cases hfound : find (String.ofList p) with
    | none => rfl
    | some other =>
      obtain ⟨hother, hop⟩ := hcarries hfound
      have hle := h.longest other hother (by rwa [hop, String.toList_ofList])
      rw [← String.length_toList, ← String.length_toList, hop, String.toList_ofList] at hle
      exact absurd hlonger hle.not_gt

/-- A mapping is found exactly when the path is under the prefix of one. -/
theorem isSome_apiUnder?_iff
    (hfind : ∀ p, find p = apis.find? fun found => found.pathPrefix = p)
    (hne : ∀ m ∈ apis, m.pathPrefix ≠ "") :
    (apiUnder? url find).isSome ↔ ∃ m ∈ apis, IsUnder m.pathPrefix.toList (routePath url) := by
  constructor
  · intro h
    obtain ⟨m, hm⟩ := Option.isSome_iff_exists.1 h
    have hlongest := (apiUnder?_eq_some_iff hfind hne).1 hm
    exact ⟨m, List.mem_of_find?_eq_some hlongest.first, hlongest.under⟩
  · rintro ⟨m, hm, hunder⟩
    have hmem : m.pathPrefix.toList ∈ segmentPrefixes (routePath url) :=
      mem_segmentPrefixes_iff.2 ⟨fun hnil => hne m hm (String.toList_eq_nil_iff.1 hnil), hunder⟩
    rw [apiUnder?, List.findSome?_isSome_iff]
    refine ⟨_, hmem, ?_⟩
    rw [String.ofList_toList, hfind, List.find?_isSome]
    exact ⟨m, hm, decide_eq_true rfl⟩

/-! ### Registered mappings -/

/-- What is taken up has a prefix where it needs one. -/
theorem lacksPrefix_of_mem_takeUp {held es : List Entry} (h : ∀ e ∈ held, e.lacksPrefix = false) :
    ∀ e ∈ es.foldl takeUp held, e.lacksPrefix = false := by
  induction es generalizing held with
  | nil => exact h
  | cons e rest ih =>
    refine ih fun e' he' => ?_
    unfold takeUp at he'
    split at he'
    · exact h e' he'
    · next hroom =>
      rcases List.mem_append.1 he' with he' | he'
      · exact h e' he'
      · rw [List.mem_singleton.1 he']
        exact (Bool.or_eq_false_iff.1 (Bool.eq_false_iff.2 hroom)).1

theorem exists_registerAll_empty (hstart : start = empty ∨ start = standard) (es : List Entry) :
    ∃ es', start.registerAll es = empty.registerAll es' := by
  rcases hstart with rfl | rfl
  · exact ⟨es, rfl⟩
  · exact ⟨_, List.foldl_append.symm⟩

/-- No mapping is registered without a prefix. -/
theorem pathPrefix_ne_empty (hstart : start = empty ∨ start = standard) (es : List Entry) :
    ∀ m ∈ (start.registerAll es).apis, m.pathPrefix ≠ "" := by
  obtain ⟨es', hes'⟩ := exists_registerAll_empty hstart es
  intro m hm hempty
  have hheld := (coherent_empty.registerAll (holds_entries empty) es').2
  rw [hes', hheld.apis, mem_filterMap_api?] at hm
  have hnone : ∀ e ∈ empty.entries, e.lacksPrefix = false := fun _ he => nomatch he
  have hlacks := lacksPrefix_of_mem_takeUp hnone _ hm
  simp [Entry.lacksPrefix, hempty] at hlacks

/-- The mappings of a method. -/
def apisOf (r : Registry) (method : String) : List ApiMapping :=
  r.apis.filter (·.httpMethod = method)

/-- No two mappings of a method have the same prefix. -/
theorem Coherent.eq_of_pathPrefix (h : r.Coherent) {method : String} {m m' : ApiMapping}
    (hm : m ∈ r.apisOf method) (hm' : m' ∈ r.apisOf method) (heq : m.pathPrefix = m'.pathPrefix) :
    m = m' := by
  obtain ⟨hm, hmethod⟩ := List.mem_filter.1 hm
  obtain ⟨hm', hmethod'⟩ := List.mem_filter.1 hm'
  have hroute : m.route = m'.route :=
    Prod.ext ((of_decide_eq_true hmethod).trans (of_decide_eq_true hmethod').symm) heq
  exact List.inj_on_of_nodup_map h.routes hm hm' hroute

theorem Coherent.entry?_route (h : r.Coherent) (method p : String) :
    entry? r.apis r.apisByRoute (method, p) =
      (r.apisOf method).find? fun found => found.pathPrefix = p := by
  rw [h.apisByRoute.entry?_eq_find?, apisOf, List.find?_filter]
  simp [ApiMapping.route, Prod.ext_iff]

/-- However a registry is filled, looking up a URL goes through the beginnings that its route is
under, each shorter than the one before. Among the mappings of a method, and among all, it finds one
exactly when the route is under the prefix of one, and then the first registered of those with the
longest such prefix; for a method there is only one of them. -/
theorem lookups_find_longest (hstart : start = empty ∨ start = standard) (es : List Entry)
    (url : String) :
    let r := start.registerAll es
    let path := routePath url
    (∀ p, p ∈ segmentPrefixes path ↔ p ≠ [] ∧ IsUnder p path) ∧
    (segmentPrefixes path).Pairwise (fun a b => b.length < a.length) ∧
    (∀ method,
      ((r.apiByRoute? method url).isSome ↔
        ∃ m ∈ r.apisOf method.toUpper, IsUnder m.pathPrefix.toList path) ∧
      (∀ m, r.apiByRoute? method url = some m ↔
        IsFirstLongest (r.apisOf method.toUpper) path m) ∧
      ∀ m ∈ r.apisOf method, ∀ m' ∈ r.apisOf method, m.pathPrefix = m'.pathPrefix → m = m') ∧
    ((r.apiByPrefix? url).isSome ↔ ∃ m ∈ r.apis, IsUnder m.pathPrefix.toList path) ∧
    ∀ m, r.apiByPrefix? url = some m ↔ IsFirstLongest r.apis path m := by
  intro r path
  have hr : r.Coherent := coherent_registerAll hstart es
  have hne := pathPrefix_ne_empty hstart es
  have hneOf (method : String) : ∀ m ∈ r.apisOf method, m.pathPrefix ≠ "" :=
    fun m hm => hne m (List.mem_filter.1 hm).1
  refine ⟨fun p => mem_segmentPrefixes_iff, segmentPrefixes_decreasing path,
    fun method => ⟨?_, fun m => ?_, fun m hm m' hm' => hr.eq_of_pathPrefix hm hm'⟩, ?_, fun m => ?_⟩
  · exact isSome_apiUnder?_iff (hr.entry?_route method.toUpper) (hneOf _)
  · exact apiUnder?_eq_some_iff (hr.entry?_route method.toUpper) (hneOf _)
  · exact isSome_apiUnder?_iff hr.firstByPrefix.entry?_eq_find? hne
  · exact apiUnder?_eq_some_iff hr.firstByPrefix.entry?_eq_find? hne

/-- A mapping of a route as it is kept, with the method in upper case and the prefix cut. -/
def keptRoute (name method pathPrefix : String) : Entry :=
  .api { ApiMapping.ofRoute name "" "" "/k" (ApiCatalogue.reading "/k") with
    httpMethod := method, pathPrefix := pathPrefix }

/-- Prefixes of one another, one of them for two methods, and one that ends inside a segment. -/
def nestedEntries : List Entry :=
  [keptRoute "all" "GET" "/api", keptRoute "write" "PUT" "/api/record",
    keptRoute "read" "GET" "/api/record", keptRoute "inside" "GET" "/api/rec"]

theorem lookups_find_longest_nested :
    let r := empty.registerAll nestedEntries
    (empty = empty ∨ empty = standard) ∧
      (∃ m, r.apiByRoute? "get" "https://shop/api/record//7/?app=1" = some m ∧
        m.platformName = "read" ∧
        IsFirstLongest (r.apisOf "get".toUpper) (routePath "https://shop/api/record//7/?app=1") m) ∧
      (∃ m, r.apiByPrefix? "/api/record" = some m ∧ m.platformName = "write" ∧
        IsFirstLongest r.apis (routePath "/api/record") m) ∧
      ¬ ∃ m ∈ r.apisOf "put".toUpper, IsUnder m.pathPrefix.toList (routePath "/api/records") := by
  intro r
  have hstart : empty = empty ∨ empty = standard := Or.inl rfl
  have hread : (r.apiByRoute? "get" "https://shop/api/record//7/?app=1").map (·.platformName) =
      some "read" := by decide +kernel
  have hwrite : (r.apiByPrefix? "/api/record").map (·.platformName) = some "write" := by
    decide +kernel
  have hnone : (r.apiByRoute? "put" "/api/records").isSome = false := by decide +kernel
  obtain ⟨m, hm, hname⟩ := Option.map_eq_some_iff.1 hread
  obtain ⟨m', hm', hname'⟩ := Option.map_eq_some_iff.1 hwrite
  obtain ⟨-, -, hroute, -⟩ :=
    lookups_find_longest hstart nestedEntries "https://shop/api/record//7/?app=1"
  obtain ⟨-, -, -, -, hfound⟩ := lookups_find_longest hstart nestedEntries "/api/record"
  obtain ⟨-, -, hput, -⟩ := lookups_find_longest hstart nestedEntries "/api/records"
  refine ⟨hstart, ⟨m, hm, hname, ?_⟩, ⟨m', hm', hname', ?_⟩, fun hunder => ?_⟩
  · exact ((hroute "get").2.1 m).1 hm
  · exact (hfound m').1 hm'
  · exact absurd ((hput "put").1.2 hunder) (Bool.eq_false_iff.1 hnone)

end CallBridge.Registry
