import CallBridge.Api.Catalogue
import CallBridge.Proofs.Collection.Ordered
import CallBridge.Proofs.Url.Scalars

/-!
# Values of parameters

Which values the query of a URL gives: truth values, integers of 64 bits, texts, and lists of these.
Main statement: a request of the catalogue sends nothing else, to the path and under the method of
its mapping (`sends_of_mem_all`).
-/

namespace CallBridge

open Collection Json

/-- A value that the query of a URL may have, its integers bounded in magnitude. -/
inductive IsQueryValue (bound : Nat) : Value → Prop where
  | bool (b : Bool) : IsQueryValue bound (.bool b)
  | string (s : String) : IsQueryValue bound (.string s)
  | integer {n : Int} : n.natAbs ≤ bound → IsQueryValue bound (.number (.int n))
  | array {items : List Value} : (∀ v ∈ items, IsQueryValue bound v) →
      IsQueryValue bound (.array items)

/-- The integers of a query have a sign and 63 bits. -/
def queryBound : Nat := Nat.pow 2 63

namespace Url

/-- Integers of a query have 64 bits. -/
theorem natAbs_le_of_readInteger? {cs : List Char} {n : Int} (h : readInteger? cs = some n) :
    n.natAbs ≤ queryBound := by
  have hread : ∀ ds : List Char,
      ((readDigits? ds).bind fun n => if n < Nat.pow 2 63 then some (n : Int) else none) = some n →
        n.natAbs ≤ queryBound := by
    intro ds hds
    obtain ⟨k, -, hk⟩ := Option.bind_eq_some_iff.1 hds
    obtain ⟨hlt, hn⟩ := Option.ite_none_right_eq_some.1 hk
    rw [← Option.some.inj hn, Int.natAbs_natCast]
    exact Nat.le_of_lt hlt
  unfold readInteger? at h
  split at h
  · next ds =>
    obtain ⟨k, -, hk⟩ := Option.bind_eq_some_iff.1 h
    obtain ⟨hle, hn⟩ := Option.ite_none_right_eq_some.1 hk
    rwa [← Option.some.inj hn, Int.natAbs_neg, Int.natAbs_natCast]
  · exact hread _ h
  · exact hread _ h

/-- One text becomes a query value. -/
theorem isQueryValue_coerceScalar (cs : List Char) : IsQueryValue queryBound (coerceScalar cs) := by
  rcases coerceScalar_cases cs with ⟨n, -, hn, h⟩ | ⟨-, ⟨-, h⟩ | ⟨-, h⟩ | h⟩
  · exact h ▸ .integer (natAbs_le_of_readInteger? hn)
  · exact h ▸ .bool true
  · exact h ▸ .bool false
  · exact h ▸ .string _

/-- So does a text with commas, a list of them. -/
theorem isQueryValue_coerceValue (raw : List Char) : IsQueryValue queryBound (coerceValue raw) := by
  unfold coerceValue
  split
  · refine .array fun v hv => ?_
    obtain ⟨part, -, rfl⟩ := List.mem_map.1 hv
    exact isQueryValue_coerceScalar _
  · exact isQueryValue_coerceScalar _

/-- So do all parameters of an address. -/
theorem isQueryValue_parameters {url : List Char} {e : String × Value} (he : e ∈ parameters url) :
    IsQueryValue queryBound e.2 := by
  unfold parameters at he
  split at he
  · exact absurd he List.not_mem_nil
  · obtain ⟨pair, -, rfl⟩ := List.mem_map.1 (Ordered.mem_ofList he)
    exact isQueryValue_coerceValue _

end Url

/-- A request to a path under a method, its known parameters from a query. -/
structure Sends (out : PlatformRequest) (path method : String) : Prop where
  values : ∀ e ∈ out.params, ∀ v, e.2 = .json v → IsQueryValue queryBound v
  path : out.path = path
  method : out.method = method

namespace ApiCatalogue

variable {out : PlatformRequest} {path method : String}

/-- Setting a parameter keeps the path and the method. -/
theorem Sends.set (h : Sends out path method) (key : String) {p : Param}
    (hp : ∀ v, p = .json v → IsQueryValue queryBound v) : Sends (out.set key p) path method where
  values e he := by
    rcases Ordered.mem_set he with rfl | he
    · exact hp
    · exact h.values e he
  path := h.path
  method := h.method

/-- A request starts with the parameters of its address. -/
theorem sends_withQuery (path : String) (r : WebRequest) :
    Sends (withQuery path r) path r.method.toUpper := by
  have hfold : ∀ (entries : List (String × Value)) (out : PlatformRequest),
      (∀ e ∈ entries, IsQueryValue queryBound e.2) → Sends out path r.method.toUpper →
        Sends (entries.foldl (fun out e => out.set e.1 (.json e.2)) out) path r.method.toUpper := by
    intro entries
    induction entries with
    | nil => exact fun out _ hout => hout
    | cons entry rest ih =>
      intro out hentries hout
      obtain ⟨hentry, hrest⟩ := List.forall_mem_cons.1 hentries
      exact ih _ hrest (Sends.set hout entry.1 fun v hv => Param.json.inj hv ▸ hentry)
  exact hfold _ _ (fun e he => Url.isQueryValue_parameters he)
    ⟨fun e he => absurd he List.not_mem_nil, rfl, rfl⟩

/-- A body whose value is not known yet is no known parameter. -/
theorem Sends.spreadBody (h : Sends out path method) {body : Option RequestBody}
    (hbody : ∀ v, body ≠ some (.json v)) : Sends (spreadBody out body) path method := by
  unfold ApiCatalogue.spreadBody
  split
  · next fields => exact absurd rfl (hbody _)
  · exact Sends.set h spreadKey nofun
  · exact h

/-- A single value put in a list stays a query value. -/
theorem isQueryValue_asList {bound : Nat} {v : Value} (h : IsQueryValue bound v) :
    IsQueryValue bound (asList v) := by
  cases h with
  | array hitems => exact .array hitems
  | bool b => exact .array (List.forall_mem_singleton.2 (.bool b))
  | string s => exact .array (List.forall_mem_singleton.2 (.string s))
  | integer hn => exact .array (List.forall_mem_singleton.2 (.integer hn))

theorem isQueryValue_of_jsonParam? (h : Sends out path method) {key : String} {v : Value}
    (hv : out.jsonParam? key = some v) : IsQueryValue queryBound v := by
  unfold PlatformRequest.jsonParam? PlatformRequest.param? at hv
  split at hv
  · next w hw =>
    obtain rfl := Option.some.inj hv
    exact h.values _ (Ordered.mem_of_get? hw) _ rfl
  · cases hv

/-- Without a body, the request that deletes has no value but those of the query. -/
theorem sends_deleting (r : WebRequest) (hbody : ∀ v, r.body ≠ some (.json v)) :
    Sends (deleting r) recordsPath r.method.toUpper := by
  have hquery := sends_withQuery recordsPath r
  unfold deleting
  refine Sends.spreadBody ?_ hbody
  cases hids : (withQuery recordsPath r).jsonParam? "ids" with
  | none => exact hquery
  | some ids =>
    refine Sends.set hquery "ids" fun v hv => ?_
    rw [← Param.json.inj hv]
    exact isQueryValue_asList (isQueryValue_of_jsonParam? hquery hids)

/-- And so has the request that writes. -/
theorem sends_writing (r : WebRequest) (hbody : ∀ v, r.body ≠ some (.json v)) :
    Sends (writing r) recordPath r.method.toUpper := by
  have hquery := sends_withQuery recordPath r
  unfold writing
  split
  · next body heq =>
    refine Sends.set hquery "record" fun v hv => ?_
    cases body with
    | json w => exact absurd heq (hbody w)
    | deferred => cases hv
  · exact hquery

/-- A request of the catalogue goes to the path of its mapping, with the values of a query. -/
theorem sends_of_mem_all {m : ApiMapping} (h : m ∈ all) (r : WebRequest)
    (hbody : ∀ v, r.body ≠ some (.json v)) :
    Sends (m.transform.request r) m.platformPath r.method.toUpper := by
  have hreading : ∀ path, Sends (reading path r) path r.method.toUpper :=
    fun path => Sends.spreadBody (sends_withQuery path r) hbody
  simp only [all, List.mem_cons, List.not_mem_nil, or_false] at h
  rcases h with rfl | rfl | rfl | rfl | rfl
  · exact hreading recordsPath
  · exact hreading recordPath
  · exact sends_writing r hbody
  · exact sends_writing r hbody
  · exact sends_deleting r hbody

end ApiCatalogue

end CallBridge
