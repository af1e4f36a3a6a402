import CallBridge.Api.Catalogue
import CallBridge.Proofs.Collection.Ordered
import CallBridge.Proofs.Collection.Span

/-!
# Parameters from a query

The query of a URL has each key once, with the value of the last pair of that key
(`get?_parameters`), so a request takes its parameters over as they stand (`params_withQuery`).
-/

namespace CallBridge

open Collection Text

namespace Url

theorem nodup_keys_parameters (url : List Char) : (Ordered.keys (parameters url)).Nodup := by
  unfold parameters
  split
  · exact List.Pairwise.nil
  · exact Ordered.nodup_keys_ofList _

/-- The pairs of the query of a URL, as they are written. -/
def pairs (url : List Char) : List (List Char) :=
  ((query? url).elim [] (·.splitOn '&')).filter (!·.isEmpty)

/-- The key of a pair, decoded. -/
def keyOf (pair : List Char) : String := String.ofList (percentDecode (pair.takeWhile (· != '=')))

/-- What stands behind the equals sign of a pair. -/
def rawValue (pair : List Char) : List Char := (pair.dropWhile (· != '=')).drop 1

theorem readPair_eq (pair : List Char) :
    readPair pair = (keyOf pair, coerceValue (rawValue pair)) := by
  rw [readPair, List.span_eq_takeWhile_dropWhile]
  rfl

theorem parameters_eq_ofList (url : List Char) :
    parameters url = .ofList ((pairs url).map readPair) := by
  unfold parameters pairs
  cases query? url <;> rfl

/-- The value of a key is that of the last pair with the key. -/
theorem get?_parameters (key : String) (url : List Char) :
    Ordered.get? key (parameters url) =
      ((pairs url).reverse.find? fun pair => keyOf pair = key).map
        fun pair => coerceValue (rawValue pair) := by
  rw [parameters_eq_ofList, Ordered.get?_ofList, ← List.map_reverse]
  generalize (pairs url).reverse = later
  induction later with
  | nil => rfl
  | cons pair later ih =>
    rw [List.map_cons, readPair_eq, Ordered.get?, ih]
    by_cases hkey : keyOf pair = key
    · rw [if_pos hkey.symm, List.find?_cons_of_pos (by simpa using hkey), Option.map_some]
    · rw [if_neg (Ne.symm hkey), List.find?_cons_of_neg (by simpa using hkey)]

end Url

namespace ApiCatalogue

/-- The parameters of a request are those of the query, in its order. -/
theorem params_withQuery (path : String) (r : WebRequest) :
    (withQuery path r).params = (Url.parameters r.url.toList).map fun e => (e.1, .json e.2) := by
  have hfold : ∀ (entries : List (String × Json.Value)) (out : PlatformRequest),
      (entries.foldl (fun out e => out.set e.1 (.json e.2)) out).params =
        (entries.map fun e => (e.1, Param.json e.2)).foldl (fun m e => Ordered.set e.1 e.2 m)
          out.params := by
    intro entries
    induction entries with
    | nil => exact fun out => rfl
    | cons e rest ih => exact fun out => ih _
  rw [withQuery, hfold]
  refine Ordered.ofList_of_nodup ?_
  rw [Ordered.keys, List.map_map]
  exact Url.nodup_keys_parameters _

theorem jsonParam?_withQuery (path : String) (r : WebRequest) (key : String) :
    (withQuery path r).jsonParam? key = Ordered.get? key (Url.parameters r.url.toList) := by
  rw [PlatformRequest.jsonParam?, PlatformRequest.param?, params_withQuery, Ordered.get?_map]
  cases Ordered.get? key (Url.parameters r.url.toList) <;> rfl

theorem keys_withQuery (path : String) (r : WebRequest) :
    Ordered.keys (withQuery path r).params = Ordered.keys (Url.parameters r.url.toList) := by
  rw [params_withQuery, Ordered.keys, List.map_map]
  rfl

end ApiCatalogue

end CallBridge
