import CallBridge.Proofs.Api.Evaluation
import CallBridge.Proofs.Url.Scalars

/-!
# Ids of records to delete

The ids of a deleting request come from the query, where one id makes a list as well, and a known
body has the last word. Main statement: the ids that are sent are those of the body as they are, or
else the values of the query in their order; so they are a list exactly when those of the body, if
it has any, are one (`deleting_ids_iff`).
-/

namespace CallBridge

open Collection Json Text

/-- The values of a pair of a query: those between commas, without white space around them, or a
single one. -/
def Url.valuesOf (pair : List Char) : List Value :=
  if (rawValue pair).contains ',' then
    ((rawValue pair).splitOn ',').map fun part => coerceScalar (trimBlank (percentDecode part))
  else [coerceScalar (percentDecode (rawValue pair))]

/-- The values that the query of a URL has under a key, which are those of the last pair. -/
def Url.values? (key : String) (url : List Char) : Option (List Value) :=
  ((pairs url).reverse.find? fun pair => keyOf pair = key).map valuesOf

/-- The value of a field in a body that is known. -/
def knownField? (name : String) : Option RequestBody → Option Value
  | some (.json v) => v.get? name
  | _ => none

def IsList (v : Value) : Prop := ∃ items, v = .array items

namespace ApiCatalogue

variable {out : PlatformRequest}

/-- A single value of a query is no list. -/
theorem asList_coerceScalar (cs : List Char) :
    asList (Url.coerceScalar cs) = .array [Url.coerceScalar cs] := by
  rcases Url.coerceScalar_cases cs with ⟨n, -, -, h⟩ | ⟨-, ⟨-, h⟩ | ⟨-, h⟩ | h⟩ <;> rw [h] <;> rfl

theorem asList_coerceValue (pair : List Char) :
    asList (Url.coerceValue (Url.rawValue pair)) = .array (Url.valuesOf pair) := by
  rw [Url.coerceValue, Url.valuesOf]
  split
  · rfl
  · exact asList_coerceScalar _

/-- The ids of the query are listed in its order. -/
theorem asList_get?_parameters (key : String) (url : List Char) :
    (Ordered.get? key (Url.parameters url)).map asList = (Url.values? key url).map .array := by
  rw [Url.get?_parameters, Url.values?, Option.map_map, Option.map_map]
  exact congrArg (Option.map · _) (funext asList_coerceValue)

theorem jsonParam?_set (key : String) (v : Value) (out : PlatformRequest) :
    (out.set key (.json v)).jsonParam? key = some v := by
  rw [PlatformRequest.jsonParam?, PlatformRequest.param?_set, if_pos rfl]

/-- A field of a known body wins over the parameter of its name. -/
theorem jsonParam?_spreadBody {name : String} (hname : name ≠ spreadKey) {body : Option RequestBody}
    (hbody : ∀ fields, body = some (.json (.object fields)) → (fields.map Prod.fst).Nodup)
    (out : PlatformRequest) :
    (spreadBody out body).jsonParam? name = (knownField? name body).or (out.jsonParam? name) := by
  cases body with
  | none => rfl
  | some b =>
    cases b with
    | deferred =>
      rw [spreadBody, PlatformRequest.jsonParam?, PlatformRequest.param?_set, if_neg hname]
      rfl
    | json v =>
      cases v with
      | object fields =>
        rw [PlatformRequest.jsonParam?, param?_spreadBody_known (hbody fields rfl), knownField?,
          Value.get?]
        cases Fields.get? name fields <;> rfl
      | _ => rfl

/-- The ids of the body are sent as they are, those of the query as a list. -/
theorem jsonParam?_deleting (r : WebRequest)
    (hbody : ∀ fields, r.body = some (.json (.object fields)) → (fields.map Prod.fst).Nodup) :
    (deleting r).jsonParam? "ids" =
      (knownField? "ids" r.body).or ((Url.values? "ids" r.url.toList).map .array) := by
  have hname : "ids" ≠ spreadKey := by decide
  rw [← asList_get?_parameters, ← jsonParam?_withQuery recordsPath r, deleting,
    jsonParam?_spreadBody hname hbody]
  cases hids : (withQuery recordsPath r).jsonParam? "ids" with
  | none => rw [hids, Option.map_none]
  | some ids => rw [jsonParam?_set, Option.map_some]

/-- Of the catalogue, it is the mapping of this name that deletes. -/
theorem request_of_delete {m : ApiMapping} (hm : m ∈ all)
    (hname : m.platformName = "record.delete") : m.transform.request = deleting := by
  simp only [all, List.mem_cons, List.not_mem_nil, or_false] at hm
  rcases hm with rfl | rfl | rfl | rfl | rfl
  case inr.inr.inr.inr => rfl
  all_goals exact absurd hname (by decide)

/-- What a deleting request sends as ids is what its body holds, or else the list of what its query
has, in order. It is a list exactly when the body, if it holds ids, holds a list. -/
theorem deleting_ids_iff {m : ApiMapping} (hm : m ∈ all) (hname : m.platformName = "record.delete")
    (r : WebRequest)
    (hbody : ∀ fields, r.body = some (.json (.object fields)) → (fields.map Prod.fst).Nodup) :
    (m.transform.request r).jsonParam? "ids" =
      (knownField? "ids" r.body).or ((Url.values? "ids" r.url.toList).map .array) ∧
    ((∀ ids, (m.transform.request r).jsonParam? "ids" = some ids → IsList ids) ↔
      ∀ ids, knownField? "ids" r.body = some ids → IsList ids) := by
  rw [request_of_delete hm hname, jsonParam?_deleting r hbody]
  refine ⟨rfl, ?_⟩
  cases knownField? "ids" r.body with
  | some ids => rfl
  | none =>
    refine iff_of_true (fun ids hids => ?_) nofun
    obtain ⟨items, -, rfl⟩ := Option.map_eq_some_iff.1 hids
    exact ⟨items, rfl⟩

/-- The ids of the last pair, one of them with an encoded comma. -/
theorem deleting_ids_query :
    ∃ m ∈ all, m.platformName = "record.delete" ∧
      (([("app", .nat 7)] : Fields).map Prod.fst).Nodup ∧
      (m.transform.request ⟨"/api/record?ids=9&app=1&ids=1,+02,x%2Cy", "DELETE",
        some (.json (.object [("app", .nat 7)]))⟩).jsonParam? "ids" =
          some (.array [.nat 1, .string "02", .string "x,y"]) := by
  have hm : all[4] ∈ all := List.getElem_mem _
  have hnodup : (([("app", .nat 7)] : Fields).map Prod.fst).Nodup := by decide
  have hvalues : Url.values? "ids" "/api/record?ids=9&app=1&ids=1,+02,x%2Cy".toList =
      some [.nat 1, .string "02", .string "x,y"] := rfl
  have hsent := (deleting_ids_iff hm rfl ⟨"/api/record?ids=9&app=1&ids=1,+02,x%2Cy", "DELETE",
    some (.json (.object [("app", .nat 7)]))⟩ (by rintro _ ⟨⟩; exact hnodup)).1
  rw [hvalues] at hsent
  exact ⟨_, hm, rfl, hnodup, hsent⟩

/-- A single id in the body is sent as it is. -/
theorem singleId_unlisted :
    ∃ m ∈ all, m.platformName = "record.delete" ∧
      (m.transform.request ⟨"/api/record?app=1", "DELETE",
        some (.json (.object [("ids", .nat 5)]))⟩).jsonParam? "ids" = some (.nat 5) ∧
      ¬ IsList (.nat 5) := by
  have hm : all[4] ∈ all := List.getElem_mem _
  refine ⟨_, hm, rfl, ?_, fun ⟨items, heq⟩ => nomatch heq⟩
  rw [request_of_delete hm rfl, jsonParam?_deleting]
  · rfl
  · rintro _ ⟨⟩
    decide

end ApiCatalogue

end CallBridge
