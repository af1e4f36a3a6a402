import CallBridge.Api.Catalogue
import CallBridge.Proofs.Collection.Ordered

/-!
# Bodies of requests

How often the parameters of a request carry the body of the call. Main statement: every mapping of
the catalogue carries a body exactly once, and none where there is none (`carriesOnce_of_mem_all`).
-/

namespace CallBridge

open Collection

/-- A parameter that takes the body of the request. -/
def carriesBody : String × Param → Bool
  | (_, .json _) => false
  | (_, .body) => true
  | (_, .spread) => true

/-- A mapping that puts a body that is not known yet in one place. -/
structure CarriesOnce (m : ApiMapping) : Prop where
  absent : ∀ url method, (m.transform.request ⟨url, method, none⟩).params.countP carriesBody = 0
  deferred : ∀ url method,
    (m.transform.request ⟨url, method, some .deferred⟩).params.countP carriesBody = 1

namespace ApiCatalogue

/-- A parameter with a value leaves every parameter with a value. -/
theorem carriesBody_set (key : String) (v : Json.Value) {out : PlatformRequest}
    (hout : ∀ e ∈ out.params, carriesBody e = false) :
    ∀ e ∈ (out.set key (.json v)).params, carriesBody e = false := by
  intro e he
  rcases Ordered.mem_set he with rfl | he
  · rfl
  · exact hout e he

/-- Parameters from the query of a URL have values. -/
theorem carriesBody_withQuery (path : String) (r : WebRequest) :
    ∀ e ∈ (withQuery path r).params, carriesBody e = false := by
  have hfold : ∀ (entries : List (String × Json.Value)) (out : PlatformRequest),
      (∀ e ∈ out.params, carriesBody e = false) →
        ∀ e ∈ (entries.foldl (fun out e => out.set e.1 (.json e.2)) out).params,
          carriesBody e = false := by
    intro entries
    induction entries with
    | nil => exact fun out hout => hout
    | cons entry rest ih => exact fun out hout => ih _ (carriesBody_set _ _ hout)
  exact hfold _ _ fun e he => absurd he List.not_mem_nil

theorem countP_of_no_body {ps : List (String × Param)} (h : ∀ e ∈ ps, carriesBody e = false) :
    ps.countP carriesBody = 0 :=
  List.countP_eq_zero.2 fun e he => by simp [h e he]

theorem carriesOnce_reading {m : ApiMapping} {path : String}
    (h : m.transform.request = reading path) : CarriesOnce m where
  absent url method := by
    rw [h]
    exact countP_of_no_body (carriesBody_withQuery path _)
  deferred url method := by
    rw [h]
    exact Ordered.countP_set _ _ _ (carriesBody_withQuery path _)

theorem carriesOnce_writing {m : ApiMapping} (h : m.transform.request = writing) :
    CarriesOnce m where
  absent url method := by
    rw [h]
    exact countP_of_no_body (carriesBody_withQuery recordPath _)
  deferred url method := by
    rw [h]
    exact Ordered.countP_set _ _ _ (carriesBody_withQuery recordPath _)

theorem carriesOnce_deleting {m : ApiMapping} (h : m.transform.request = deleting) :
    CarriesOnce m where
  absent url method := by
    rw [h]
    simp only [deleting]
    split
    · exact countP_of_no_body (carriesBody_set _ _ (carriesBody_withQuery recordsPath _))
    · exact countP_of_no_body (carriesBody_withQuery recordsPath _)
  deferred url method := by
    rw [h]
    simp only [deleting]
    split
    · exact Ordered.countP_set _ _ _ (carriesBody_set _ _ (carriesBody_withQuery recordsPath _))
    · exact Ordered.countP_set _ _ _ (carriesBody_withQuery recordsPath _)

/-- Every mapping of the catalogue carries a body exactly once. -/
theorem carriesOnce_of_mem_all {m : ApiMapping} (h : m ∈ all) : CarriesOnce m := by
  simp only [all, List.mem_cons, List.not_mem_nil, or_false] at h
  rcases h with rfl | rfl | rfl | rfl | rfl
  · exact carriesOnce_reading rfl
  · exact carriesOnce_reading rfl
  · exact carriesOnce_writing rfl
  · exact carriesOnce_writing rfl
  · exact carriesOnce_deleting rfl

end ApiCatalogue

end CallBridge
