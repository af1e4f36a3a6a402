import CallBridge.Api.Catalogue
import CallBridge.Event.Catalogue
import CallBridge.Registry.Basic

/-!
# Looking up mappings

An event is found by its type and selector, or by its type alone. A URL is found by the longest
registered prefix of its path that ends where a segment ends; origin and query do not count.
-/

namespace CallBridge

open Collection

namespace Registry

/-- The registry with the default catalogue. -/
def standard : Registry :=
  empty.registerAll (EventCatalogue.all.map .event ++ ApiCatalogue.all.map .api)

def eventByName? (r : Registry) (name : String) : Option EventMapping :=
  entry? r.events r.eventsByName name

/-- The mapping of exactly this selector, or else the first one of the type. -/
def eventByTrigger? (r : Registry) (eventType : String) (selector : Option String) :
    Option EventMapping :=
  let exact := selector.bind fun s => entry? r.events r.eventsByTrigger ⟨eventType, some s⟩
  exact <|> entry? r.events r.firstByType eventType

def apiByName? (r : Registry) (name : String) : Option ApiMapping :=
  entry? r.apis r.apisByName name

/-- The beginnings of a path in front of each of its slashes, the shortest first. -/
def cuts : List Char → List (List Char)
  | [] => []
  | c :: rest =>
    let longer := (cuts rest).map (c :: ·)
    if c = '/' then [] :: longer else longer

/-- The beginnings of a path that end where a segment ends, the longest first. -/
def segmentPrefixes (path : List Char) : List (List Char) :=
  (path :: (cuts path).reverse).filter (!·.isEmpty)

/-- The path of a URL without slashes at its end. -/
def routePath (url : String) : List Char :=
  ((Url.path url.toList).reverse.dropWhile (· == '/')).reverse

/-- The first mapping found under a beginning of a URL's path. -/
def apiUnder? (url : String) (find : String → Option ApiMapping) : Option ApiMapping :=
  (segmentPrefixes (routePath url)).findSome? fun p => find (String.ofList p)

/-- The mapping of the longest prefix, whatever its method. -/
def apiByPrefix? (r : Registry) (url : String) : Option ApiMapping :=
  apiUnder? url fun p => entry? r.apis r.firstByPrefix p

/-- The mapping of the longest prefix for a method. -/
def apiByRoute? (r : Registry) (method url : String) : Option ApiMapping :=
  apiUnder? url fun p => entry? r.apis r.apisByRoute (method.toUpper, p)

/-- A beginning of a path is cut in front of a slash. -/
theorem mem_cuts {path p : List Char} : p ∈ cuts path ↔ ∃ rest, path = p ++ '/' :: rest := by
  induction path generalizing p with
  | nil => simp [cuts]
  | cons c rest ih =>
    by_cases h : c = '/' <;> cases p <;> simp_all [cuts] <;> exact And.comm

end Registry

end CallBridge
