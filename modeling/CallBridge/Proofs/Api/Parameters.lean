import CallBridge.Proofs.Api.Query
import CallBridge.Proofs.Collection.Filled
import CallBridge.Proofs.Json.Fields

/-!
# Parameters in order

A request whose parameters are set one after the other keeps each of them once, where it was first
set, with its last value; a query is read by the same law. So a request has the parameters of its
query in their order, whether they are taken over as they were read or set pair by pair
(`params_setAll_entries`). Main statement: `parameters_filled`.
-/

namespace CallBridge

open Collection Collection.Ordered Json

/-! ### Requests -/

namespace PlatformRequest

/-- A request behind a number of settings. -/
def setAll (r : PlatformRequest) (settings : List (String × Param)) : PlatformRequest :=
  settings.foldl (fun r s => r.set s.1 s.2) r

theorem params_setAll (path method : String) (settings : List (String × Param)) :
    ((empty path method).setAll settings).params = ofList settings := by
  have hfold : ∀ (settings : List (String × Param)) (r : PlatformRequest),
      (r.setAll settings).params = settings.foldl (fun m s => Ordered.set s.1 s.2 m) r.params := by
    intro settings
    induction settings with
    | nil => exact fun r => rfl
    | cons s rest ih => exact fun r => ih (r.set s.1 s.2)
  exact hfold settings (empty path method)

theorem jsonParam?_eq_some_iff {r : PlatformRequest} {key : String} {v : Value} :
    r.jsonParam? key = some v ↔ r.param? key = some (.json v) := by
  rw [jsonParam?]
  cases r.param? key with
  | none => simp
  | some p => cases p <;> simp

end PlatformRequest

/-! ### Queries -/

namespace Url

/-- The keys of the pairs of a query with their values, in the order of the query. -/
def entries (url : List Char) : List (String × Value) :=
  (pairs url).map fun pair => (keyOf pair, coerceValue (rawValue pair))

theorem filled_parameters (url : List Char) : Filled (entries url) (parameters url) := by
  have hread : (pairs url).map readPair = entries url :=
    List.map_congr_left fun pair _ => readPair_eq pair
  rw [parameters_eq_ofList, hread]
  exact filled_ofList _

theorem parameterObject_eq_object (url : List Char) :
    ∃ fields, parameterObject url = .object fields ∧ fields.Perm (parameters url) :=
  ⟨_, rfl, Fields.perm_ofList (nodup_keys_parameters url)⟩

end Url

theorem ApiCatalogue.params_withQuery_eq_setAll (path : String) (r : WebRequest) :
    (withQuery path r).params =
      ((PlatformRequest.empty path r.method.toUpper).setAll
        ((Url.entries r.url.toList).map fun e => (e.1, .json e.2))).params := by
  have hfilled := (Url.filled_parameters r.url.toList).map Param.json
  rw [params_withQuery, PlatformRequest.params_setAll]
  exact hfilled.unique (filled_ofList _)

/-- However the parameters of a new request are set, each is kept once, where it was first set, and
holds what was set last; it has a value of its own exactly when that is one. The parameters of a URL
follow the same law for the pairs of its query that are not empty, with their keys decoded. So a
request holds the parameters of its query in that order, as if the pairs were set one by one, and
the object of a query has the same keys with the same values. -/
theorem parameters_filled :
    (∀ (path method : String) (settings : List (String × Param)),
      let r := (PlatformRequest.empty path method).setAll settings
      Filled settings r.params ∧
      ∀ key, (r.param? key = none ↔ key ∉ settings.map Prod.fst) ∧
        (∀ p, r.param? key = some p ↔
          ∃ earlier later, settings = earlier ++ (key, p) :: later ∧ key ∉ later.map Prod.fst) ∧
        ∀ v, r.jsonParam? key = some v ↔ r.param? key = some (.json v)) ∧
    ∀ (url method path : String) (body : Option RequestBody),
      let entries := (Url.pairs url.toList).map fun pair =>
        (Url.keyOf pair, Url.coerceValue (Url.rawValue pair))
      let params := Url.parameters url.toList
      let r := ApiCatalogue.withQuery path ⟨url, method, body⟩
      Filled entries params ∧
      r.params = params.map (fun e => (e.1, .json e.2)) ∧
      r.params = ((PlatformRequest.empty path method).setAll
        (entries.map fun e => (e.1, .json e.2))).params ∧
      ∃ fields, Url.parameterObject url.toList = .object fields ∧ fields.Perm params := by
  constructor
  · intro path method settings r
    have hfilled : Filled settings r.params := by
      rw [PlatformRequest.params_setAll]
      exact filled_ofList settings
    exact ⟨hfilled, fun key => ⟨hfilled.get?_eq_none_iff, hfilled.last key,
      fun _ => PlatformRequest.jsonParam?_eq_some_iff⟩⟩
  · intro url method path body entries params r
    refine ⟨Url.filled_parameters _, ApiCatalogue.params_withQuery path _, ?_,
      Url.parameterObject_eq_object _⟩
    rw [ApiCatalogue.params_withQuery_eq_setAll, PlatformRequest.params_setAll,
      PlatformRequest.params_setAll]
    rfl

/-- Keys that are written in different ways are the same when they are decoded. -/
example : Url.parameters "/api?b+c=1&a=2&&b%20c=x,3".toList =
    [("b c", .array [.string "x", .int 3]), ("a", .int 2)] := rfl

end CallBridge
