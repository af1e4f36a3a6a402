import CallBridge.Proofs.Registry.Tables
import Mathlib.Data.List.TakeWhile

/-!
# Paths under a prefix

A path is under a prefix when it is the prefix or goes on behind it with a slash. Main statement: a
mapping that a URL finds has a prefix that the route of the URL is under (`isUnder_of_apiByRoute?`),
and so has what stands behind the origin of the URL (`isUnder_behind_origin`), or the whole head of
a URL without one (`isUnder_head`).
-/

namespace CallBridge.Registry

/-- A path that is a prefix or continues it with a slash. -/
def IsUnder (pathPrefix path : List Char) : Prop :=
  path = pathPrefix ∨ ∃ rest, path = pathPrefix ++ '/' :: rest

variable {r : Registry} {m : ApiMapping} {p path : List Char}

/-- The beginnings of a path that are looked up are not empty, and the path is under each. -/
theorem isUnder_of_mem_segmentPrefixes (h : p ∈ segmentPrefixes path) :
    p ≠ [] ∧ IsUnder p path := by
  obtain ⟨hmem, hne⟩ := List.mem_filter.1 h
  refine ⟨by simpa using hne, ?_⟩
  rcases List.mem_cons.1 hmem with rfl | hcut
  · exact Or.inl rfl
  · exact Or.inr (mem_cuts.1 (List.mem_reverse.1 hcut))

/-- Slashes behind a path leave it under its prefixes. -/
theorem IsUnder.append_slashes (h : IsUnder p path) {slashes : List Char}
    (hslashes : ∀ c ∈ slashes, c = '/') : IsUnder p (path ++ slashes) := by
  rcases h with rfl | ⟨rest, rfl⟩
  · cases slashes with
    | nil => exact Or.inl (List.append_nil _)
    | cons c others =>
      obtain rfl := hslashes c (List.mem_cons_self ..)
      exact Or.inr ⟨others, rfl⟩
  · exact Or.inr ⟨rest ++ slashes, by simp⟩

/-- The path of a URL is its route with slashes behind it. -/
theorem path_eq_routePath_append (url : String) :
    ∃ slashes, Url.path url.toList = routePath url ++ slashes ∧ ∀ c ∈ slashes, c = '/' := by
  refine ⟨((Url.path url.toList).reverse.takeWhile (· == '/')).reverse, ?_, fun c hc => ?_⟩
  · rw [routePath, ← List.reverse_append, List.takeWhile_append_dropWhile, List.reverse_reverse]
  · exact beq_iff_eq.1 (List.mem_takeWhile_imp (p := (· == '/')) (List.mem_reverse.1 hc))

/-- A mapping that is found by a route has the method and a prefix that the route is under. -/
theorem Coherent.isUnder_of_apiByRoute? (h : r.Coherent) {method url : String}
    (hm : r.apiByRoute? method url = some m) :
    m.httpMethod = method.toUpper ∧ m.pathPrefix.toList ≠ [] ∧
      IsUnder m.pathPrefix.toList (routePath url) := by
  obtain ⟨p, hp, hfound⟩ := List.exists_of_findSome?_eq_some hm
  have hentry : entry? r.apis r.apisByRoute (method.toUpper, String.ofList p) = some m := hfound
  rw [h.apisByRoute.entry?_eq_find?] at hentry
  have hroute : m.route = (method.toUpper, String.ofList p) := by
    simpa using List.find?_some hentry
  obtain ⟨hmethod, hpath⟩ := Prod.mk.inj hroute
  rw [hpath, String.toList_ofList]
  exact ⟨hmethod, isUnder_of_mem_segmentPrefixes hp⟩

/-! ### Behind an origin -/

/-- Where a route is not empty, what stands behind the origin of its URL goes on as the route. -/
theorem isUnder_behind_origin {url : String} {origin rest : List Char} (hp : p ≠ [])
    (horigin : Url.splitOrigin? (Url.head url.toList) = some (origin, rest))
    (h : IsUnder p (routePath url)) : IsUnder p rest := by
  obtain ⟨slashes, hpath, hslashes⟩ := path_eq_routePath_append url
  cases rest with
  | nil =>
    -- Only a slash is left of such a URL, and the route drops it.
    have hroute : routePath url = [] := by simp [routePath, Url.path, horigin]
    rw [hroute] at h
    rcases h with hnil | ⟨rest, hcons⟩
    · exact absurd hnil.symm hp
    · simp at hcons
  | cons c rest =>
    have hrest : Url.path url.toList = c :: rest := by simp [Url.path, horigin]
    rw [← hrest, hpath]
    exact h.append_slashes hslashes

/-- Without an origin, the head of a URL goes on as its route. -/
theorem isUnder_head {url : String} (horigin : Url.splitOrigin? (Url.head url.toList) = none)
    (h : IsUnder p (routePath url)) : IsUnder p (Url.head url.toList) := by
  obtain ⟨slashes, hpath, hslashes⟩ := path_eq_routePath_append url
  have hhead : Url.path url.toList = Url.head url.toList := by simp [Url.path, horigin]
  rw [← hhead, hpath]
  exact h.append_slashes hslashes

end CallBridge.Registry
